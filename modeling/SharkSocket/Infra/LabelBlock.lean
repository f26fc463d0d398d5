import SharkSocket.Infra.Exposition

/-!
# Labels are read back

`escapeLabelValue` replaces in three passes over the whole text what `escapeByte` replaces
byte by byte, so its text can be read from left to right:

* `newline_notMem_escapeLabelValue`, `odd_backslashes`: it fits on a line, and no quote in it
  ends it;
* `unescapeLabelValue_escape`: undoing the escapes gives the value back;
* `parseLabels_promLabels`: so does a parser of the block in braces, for all labels.

The reader is that of the exposition format: a name ends at the equals sign, a value at
the first quote that is not escaped, and the block at the brace.
-/

namespace SharkSocket.Infra

open Lib

/-! ### Values -/

def escapeByte (b : UInt8) : Bytes :=
  if b = 0x5c then [0x5c, 0x5c] else if b = 0x0a then [0x5c, 0x6e]
  else if b = 0x22 then [0x5c, 0x22] else [b]

/-- No replacement is seen by a later one. -/
theorem escapeLabelValue_eq (value : Bytes) :
    escapeLabelValue value = value.flatMap escapeByte := by
  unfold escapeLabelValue replaceByte
  rw [List.flatMap_assoc, List.flatMap_assoc]
  refine congrArg (List.flatMap · value) (funext fun b => ?_)
  unfold escapeByte
  by_cases hbackslash : b = 0x5c
  · subst hbackslash
    decide
  by_cases hnewline : b = 0x0a
  · subst hnewline
    decide
  · simp [hbackslash, hnewline]

/-- What a byte is escaped to. -/
inductive Escapes : UInt8 → Bytes → Prop
  | backslash : Escapes 0x5c [0x5c, 0x5c]
  | newline : Escapes 0x0a [0x5c, 0x6e]
  | quote : Escapes 0x22 [0x5c, 0x22]
  | plain {b : UInt8} : b ≠ 0x5c → b ≠ 0x0a → b ≠ 0x22 → Escapes b [b]

theorem escapeByte_cases {b : UInt8} {e : Bytes} (he : escapeByte b = e) : Escapes b e := by
  subst he
  unfold escapeByte
  split
  · rename_i hb
    rw [hb]
    exact .backslash
  rename_i hbackslash
  split
  · rename_i hb
    rw [hb]
    exact .newline
  rename_i hnewline
  split
  · rename_i hb
    rw [hb]
    exact .quote
  rename_i hquote
  exact .plain hbackslash hnewline hquote

/-- The three escapes undone, from left to right. -/
def unescapeLabelValue : Bytes → Bytes
  | 0x5c :: 0x5c :: rest => 0x5c :: unescapeLabelValue rest
  | 0x5c :: 0x6e :: rest => 0x0a :: unescapeLabelValue rest
  | 0x5c :: 0x22 :: rest => 0x22 :: unescapeLabelValue rest
  | b :: rest => b :: unescapeLabelValue rest
  | [] => []

theorem unescapeLabelValue_escapeByte (b : UInt8) (rest : Bytes) :
    unescapeLabelValue (escapeByte b ++ rest) = b :: unescapeLabelValue rest := by
  generalize he : escapeByte b = e
  cases escapeByte_cases he with
  | backslash | newline | quote => rfl
  | plain hbackslash _ _ =>
    rw [List.singleton_append, unescapeLabelValue]
    all_goals
      rintro rest' rfl
      exact absurd rfl hbackslash

theorem unescapeLabelValue_escape (value : Bytes) :
    unescapeLabelValue (escapeLabelValue value) = value := by
  rw [escapeLabelValue_eq]
  induction value with
  | nil => rfl
  | cons b value ih => rw [List.flatMap_cons, unescapeLabelValue_escapeByte, ih]

theorem newline_notMem_escapeLabelValue (value : Bytes) : 0x0a ∉ escapeLabelValue value := by
  rw [escapeLabelValue_eq, List.mem_flatMap]
  rintro ⟨b, -, hb⟩
  generalize he : escapeByte b = e at hb
  cases escapeByte_cases he with
  | plain _ hnewline _ => exact hnewline (List.mem_singleton.mp hb).symm
  | _ => simp at hb

/-! ### Quotes -/

/-- Whether the backslashes at the end of a text are odd in number, one more byte on. -/
def oddAfter (odd : Bool) (b : UInt8) : Bool := b == 0x5c && !odd

theorem odd_rtakeWhile (l : Bytes) :
    l.foldl oddAfter false = decide ((l.rtakeWhile (· == 0x5c)).length % 2 = 1) := by
  induction l using List.reverseRecOn with
  | nil => rfl
  | append_singleton l b ih =>
    rw [List.foldl_append, List.foldl_cons, List.foldl_nil, ih, oddAfter, List.rtakeWhile_concat]
    by_cases hb : b = 0x5c
    · subst hb
      rw [beq_self_eq_true, if_pos rfl, List.length_append, List.length_singleton, Bool.true_and,
        ← decide_not]
      congr 1
      rw [eq_iff_iff]
      omega
    rw [beq_eq_false_iff_ne.mpr hb]
    rfl

/-- The only quote in the escape of a byte is its last byte, behind one backslash. -/
theorem oddAfter_of_escapes {b : UInt8} {e front back : Bytes} (hcases : Escapes b e)
    (h : e = front ++ 0x22 :: back) : front.foldl oddAfter false = true := by
  have hmem : 0x22 ∈ e := by simp [h]
  cases hcases with
  | backslash | newline => simp at hmem
  | plain _ _ hquote => exact absurd (List.mem_singleton.mp hmem).symm hquote
  | quote =>
    cases front with
    | nil => cases h
    | cons c front =>
      obtain ⟨rfl, hrest⟩ := List.cons.inj h
      cases front with
      | nil => rfl
      | cons d front => simp at hrest

/-- **A quote of an escaped value has an odd number of backslashes in front.** -/
theorem odd_backslashes {value front back : Bytes}
    (h : escapeLabelValue value = front ++ 0x22 :: back) :
    (front.rtakeWhile (· == 0x5c)).length % 2 = 1 := by
  rw [escapeLabelValue_eq] at h
  have hodd : front.foldl oddAfter false = true := by
    induction value generalizing front with
    | nil => simp at h
    | cons b value ih =>
      rw [List.flatMap_cons] at h
      generalize he : escapeByte b = e at h
      have hcases := escapeByte_cases he
      -- behind the escape of a byte the count is even again
      have heven : e.foldl oddAfter false = false := by
        cases hcases with
        | plain hbackslash _ _ => simp [oddAfter, hbackslash]
        | _ => rfl
      rcases List.append_eq_append_iff.mp h with ⟨front', rfl, hrest⟩ | ⟨inner, hinner, hrest⟩
      · rw [List.foldl_append, heven]
        exact ih hrest
      cases inner with
      | nil =>
        have hnone : [].foldl oddAfter false = true := ih hrest.symm
        cases hnone
      | cons c inner =>
        obtain ⟨rfl, -⟩ := List.cons.inj hrest
        exact oddAfter_of_escapes hcases hinner
  rw [odd_rtakeWhile] at hodd
  exact of_decide_eq_true hodd

/-! ### Names -/

theorem isNameByte_sanitizeFrom (name : Bytes) : ∀ (skip : Nat) (first : Bool),
    ∀ b ∈ sanitizeFrom skip first name, isNameByte false b = true := by
  induction name with
  | nil =>
    intro skip first b hb
    simp [sanitizeFrom] at hb
  | cons c rest ih =>
    intro skip first b hb
    cases skip with
    | succ skip => exact ih skip first b hb
    | zero =>
      rw [sanitizeFrom, List.mem_cons] at hb
      rcases hb with rfl | hb
      · split
        · rename_i hc
          unfold isNameByte at hc ⊢
          grind
        · rfl
      · exact ih _ false b hb

theorem isNameByte_sanitizeLabelName (name : Bytes) :
    ∀ b ∈ sanitizeLabelName name, isNameByte false b = true := by
  unfold sanitizeLabelName
  split
  · decide +kernel
  · exact isNameByte_sanitizeFrom name 0 true

/-- A valid name stays as it is. -/
theorem sanitizeFrom_eq_self (first : Bool) {name : Bytes}
    (hhead : ∀ b ∈ name.head?, isNameByte first b) (h : ∀ b ∈ name, isNameByte false b) :
    sanitizeFrom 0 first name = name := by
  induction name generalizing first with
  | nil => rfl
  | cons b rest ih =>
    have hb := h b List.mem_cons_self
    have hascii : b < 0x80 := by
      unfold isNameByte at hb
      grind
    have hrest : ∀ c ∈ rest, isNameByte false c := fun c hc => h c (List.mem_cons_of_mem b hc)
    rw [sanitizeFrom, if_pos (hhead b rfl), runeLen_ascii hascii,
      ih false (fun c hc => hrest c (List.mem_of_mem_head? hc)) hrest]

theorem sanitizeLabelName_positionalName (i : Nat) :
    sanitizeLabelName (positionalName i) = positionalName i := by
  refine sanitizeFrom_eq_self true ?_ ?_
  · intro b hb
    cases hb
    decide
  · intro b hb
    have hword : ∀ c ∈ ascii "label_", isNameByte false c = true := by decide +kernel
    have hdigits : ∀ c ∈ decimal i, isNameByte false c = true := by
      exact forall_decimalOnto (by decide) _ _ (by simp)
    rcases List.mem_append.mp hb with hb | hb
    · exact hword b hb
    · exact hdigits b hb

/-- The names and values that a caller gives; the names of a list of odd length are its
positions. -/
def namedLabels (labels : List Bytes) : List (Bytes × Bytes) :=
  if labels.length % 2 = 0 then pairsOf labels
  else labels.zipIdx.map fun p => (positionalName p.2, p.1)

/-- The names and values as they are rendered. -/
def renderedLabels (labels : List Bytes) : List (Bytes × Bytes) :=
  (namedLabels labels).map fun p => (sanitizeLabelName p.1, p.2)

/-- The label with an already sanitised name and a value. -/
def labelOf (p : Bytes × Bytes) : Label := ⟨p.1, escapeLabelValue p.2⟩

theorem labelsOf_eq_map (labels : List Bytes) :
    labelsOf labels = (renderedLabels labels).map labelOf := by
  unfold labelsOf renderedLabels namedLabels
  rw [List.map_map]
  split
  · rfl
  rw [List.map_map]
  refine List.map_congr_left fun p _ => ?_
  rw [Function.comp_apply, Function.comp_apply, sanitizeLabelName_positionalName, labelOf]

theorem isNameByte_renderedLabels {labels : List Bytes} {p : Bytes × Bytes}
    (hp : p ∈ renderedLabels labels) : ∀ b ∈ p.1, isNameByte false b = true := by
  obtain ⟨q, -, rfl⟩ := List.mem_map.mp hp
  exact isNameByte_sanitizeLabelName q.1

theorem eq_notMem_renderedLabels (labels : List Bytes) :
    ∀ p ∈ renderedLabels labels, 0x3d ∉ p.1 :=
  fun _ hp h => absurd (isNameByte_renderedLabels hp 0x3d h) (by decide)

/-! ### The block -/

/-- The value in quotes, of which the first is read already, and what stands behind it. -/
def readValue : Bytes → Option (Bytes × Bytes)
  | 0x22 :: rest => some ([], rest)
  | 0x5c :: 0x5c :: rest => (readValue rest).map (Prod.map (0x5c :: ·) id)
  | 0x5c :: 0x6e :: rest => (readValue rest).map (Prod.map (0x0a :: ·) id)
  | 0x5c :: 0x22 :: rest => (readValue rest).map (Prod.map (0x22 :: ·) id)
  | b :: rest => (readValue rest).map (Prod.map (b :: ·) id)
  | [] => none

def readLabel (s : Bytes) : Option ((Bytes × Bytes) × Bytes) :=
  match s.dropWhile (· != 0x3d) with
  | 0x3d :: 0x22 :: rest =>
    (readValue rest).map fun p => ((s.takeWhile (· != 0x3d), p.1), p.2)
  | _ => none

/-- The labels up to the brace.  A label is not empty, so the length of the text is enough
fuel. -/
def readLabels : Nat → Bytes → Option (List (Bytes × Bytes) × Bytes)
  | 0, _ => none
  | fuel + 1, s =>
    match readLabel s with
    | some (label, 0x2c :: rest) => (readLabels fuel rest).map (Prod.map (label :: ·) id)
    | some (label, 0x7d :: rest) => some ([label], rest)
    | _ => none

/-- The names and values in a block.  Without labels there are no braces. -/
def parseLabels (block : Bytes) : Option (List (Bytes × Bytes)) :=
  match block with
  | [] => some []
  | 0x7b :: rest =>
    match readLabels rest.length rest with
    | some (labels, []) => some labels
    | _ => none
  | _ => none

theorem readValue_escapeByte (b : UInt8) (rest : Bytes) :
    readValue (escapeByte b ++ rest) = (readValue rest).map (Prod.map (b :: ·) id) := by
  generalize he : escapeByte b = e
  cases escapeByte_cases he with
  | backslash | newline | quote => rfl
  | plain hbackslash _ hquote =>
    rw [List.singleton_append, readValue]
    · exact hquote
    all_goals
      rintro rest' rfl
      exact absurd rfl hbackslash

/-- A value is read to the quote behind it. -/
theorem readValue_escape (value rest : Bytes) :
    readValue (escapeLabelValue value ++ 0x22 :: rest) = some (value, rest) := by
  rw [escapeLabelValue_eq]
  induction value with
  | nil => rfl
  | cons b value ih =>
    rw [List.flatMap_cons, List.append_assoc, readValue_escapeByte, ih]
    rfl

theorem readLabel_text {label : Bytes × Bytes} (h : 0x3d ∉ label.1) (rest : Bytes) :
    readLabel ((labelOf label).text ++ rest) = some (label, rest) := by
  have htext : (labelOf label).text ++ rest =
      label.1 ++ 0x3d :: 0x22 :: (escapeLabelValue label.2 ++ 0x22 :: rest) := by
    simp [Label.text, labelOf]
  have hname : ∀ c ∈ label.1, (c != 0x3d) = true := by
    intro c hc
    rw [bne_iff_ne]
    rintro rfl
    exact h hc
  have htake : (label.1 ++ 0x3d :: 0x22 :: (escapeLabelValue label.2 ++ 0x22 :: rest)).takeWhile
      (· != 0x3d) = label.1 := by
    rw [List.takeWhile_append_of_pos hname, List.takeWhile_cons_of_neg (by decide), List.append_nil]
  rw [htext, readLabel, List.dropWhile_append_of_pos hname, htake]
  show (readValue _).map _ = _
  rw [readValue_escape]
  rfl

theorem readLabels_text {labels : List (Bytes × Bytes)} (hne : labels ≠ [])
    (h : ∀ label ∈ labels, 0x3d ∉ label.1) {fuel : Nat} (hfuel : labels.length ≤ fuel)
    (rest : Bytes) :
    readLabels fuel (List.intercalate [0x2c] (labels.map fun label => (labelOf label).text) ++
      0x7d :: rest) = some (labels, rest) := by
  induction labels generalizing fuel with
  | nil => exact absurd rfl hne
  | cons label labels ih =>
    obtain ⟨hlabel, hlabels⟩ := List.forall_mem_cons.mp h
    obtain ⟨fuel, rfl⟩ : ∃ n, fuel = n + 1 := ⟨fuel - 1, by simp at hfuel; omega⟩
    have hrest : labels.length ≤ fuel := Nat.le_of_succ_le_succ hfuel
    cases labels with
    | nil =>
      have htext : List.intercalate [0x2c] [(labelOf label).text] ++ 0x7d :: rest =
          (labelOf label).text ++ 0x7d :: rest := by simp [List.intercalate]
      rw [List.map_singleton, htext, readLabels, readLabel_text hlabel]
      rfl
    | cons next labels =>
      rw [List.map_cons, List.map_cons, List.intercalate_cons_cons, List.append_assoc,
        List.append_assoc, readLabels, readLabel_text hlabel, List.singleton_append]
      show (readLabels fuel _).map _ = _
      rw [← List.map_cons (f := fun label => (labelOf label).text),
        ih (List.cons_ne_nil next labels) hlabels hrest]
      rfl

/-- The text behind the opening brace is fuel enough. -/
theorem readLabels_block {labels : List (Bytes × Bytes)} (hne : labels ≠ [])
    (h : ∀ label ∈ labels, 0x3d ∉ label.1) (rest : Bytes) :
    ∃ block, renderLabels (labels.map labelOf) = 0x7b :: block ∧
      readLabels (block ++ rest).length (block ++ rest) = some (labels, rest) := by
  have hlen := length_le_intercalate 0x2c (labels.map fun label => (labelOf label).text)
  rw [List.length_map] at hlen
  refine ⟨List.intercalate [0x2c] (labels.map fun label => (labelOf label).text) ++ [0x7d], ?_, ?_⟩
  · rw [renderLabels, if_neg (by simpa using hne), List.map_map]
    rfl
  · rw [List.append_assoc]
    refine readLabels_text hne h ?_ rest
    rw [List.length_append, List.length_append, List.length_singleton]
    omega

theorem parseLabels_render {labels : List (Bytes × Bytes)} (h : ∀ label ∈ labels, 0x3d ∉ label.1) :
    parseLabels (renderLabels (labels.map labelOf)) = some labels := by
  by_cases hnil : labels = []
  · subst hnil
    rfl
  obtain ⟨block, hblock, hread⟩ := readLabels_block hnil h []
  rw [List.append_nil] at hread
  rw [hblock, parseLabels, hread]

/-- **The block of any labels is parsed back**: to the names as they are sanitised, and to the
values as they were. -/
theorem parseLabels_promLabels (labels : List Bytes) :
    parseLabels (promLabels labels) = some (renderedLabels labels) := by
  rw [promLabels, labelsOf_eq_map, parseLabels_render (eq_notMem_renderedLabels labels)]

/-- The values in a block. -/
def parseValues (block : Bytes) : Option (List Bytes) := (parseLabels block).map (·.map Prod.snd)

theorem parseValues_promLabels (labels : List Bytes) :
    parseValues (promLabels labels) = some ((namedLabels labels).map Prod.snd) := by
  rw [parseValues, parseLabels_promLabels, renderedLabels, Option.map_some, List.map_map]
  rfl

theorem namedLabels_pairs (pairs : List (Bytes × Bytes)) :
    namedLabels (pairs.flatMap fun p => [p.1, p.2]) = pairs := by
  have hlength : (pairs.flatMap fun p => [p.1, p.2]).length % 2 = 0 := by simp [List.length_flatMap]
  rw [namedLabels, if_pos hlength]
  clear hlength
  induction pairs with
  | nil => rfl
  | cons p pairs ih =>
    show (p.1, p.2) :: pairsOf (pairs.flatMap fun p => [p.1, p.2]) = p :: pairs
    rw [ih]

/-- **Label values are escaped reversibly.**  Every value is escaped to a text without a
newline, in which each quote has an odd number of backslashes in front and from which
undoing the escapes gives the value.  So the block of any labels is parsed back to the
values: those of a list of pairs of names and values, and those of a list of odd length,
which has no names. -/
theorem label_values_read_back :
    (∀ value : Bytes, 0x0a ∉ escapeLabelValue value ∧
      (∀ front back, escapeLabelValue value = front ++ 0x22 :: back →
        (front.rtakeWhile (· == 0x5c)).length % 2 = 1) ∧
      unescapeLabelValue (escapeLabelValue value) = value) ∧
    (∀ labels : List Bytes, parseLabels (promLabels labels) =
      some ((namedLabels labels).map fun p => (sanitizeLabelName p.1, p.2))) ∧
    (∀ pairs : List (Bytes × Bytes),
      parseValues (promLabels (pairs.flatMap fun p => [p.1, p.2])) = some (pairs.map Prod.snd)) ∧
    ∀ values : List Bytes, values.length % 2 = 1 → parseValues (promLabels values) = some values := by
  refine ⟨fun value => ⟨newline_notMem_escapeLabelValue value, fun _ _ => odd_backslashes,
    unescapeLabelValue_escape value⟩, parseLabels_promLabels, ?_, ?_⟩
  · intro pairs
    rw [parseValues_promLabels, namedLabels_pairs]
  · intro values hodd
    have hnames : namedLabels values = values.zipIdx.map fun p => (positionalName p.2, p.1) :=
      if_neg (by omega)
    rw [parseValues_promLabels, hnames, List.map_map]
    exact congrArg some (List.zipIdx_map_fst 0 values)

end SharkSocket.Infra
