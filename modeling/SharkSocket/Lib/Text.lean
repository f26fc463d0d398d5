import Mathlib.Data.List.Basic
import Mathlib.Data.Nat.Basic
import Mathlib.Tactic.Common

/-!
# Text as bytes

The parts of Go's `strings`, `strconv` and `fmt` that text protocols use, on the
bytes of a string.

White space is `unicode.IsSpace`, found by its UTF-8 encoding: the first byte of
such an encoding is never a continuation byte, so it starts a rune wherever it
stands, also in text that is not valid UTF-8.
-/

namespace SharkSocket.Lib

/-- The bytes of an ASCII string. -/
def ascii (s : String) : List UInt8 := s.toList.map fun c => UInt8.ofNat c.toNat

/-! ### Words -/

/-- The length of the white space at the head of the text, or 0. -/
def spaceLen : List UInt8 → Nat
  | 0x09 :: _ | 0x0a :: _ | 0x0b :: _ | 0x0c :: _ | 0x0d :: _ | 0x20 :: _ => 1
  | 0xc2 :: b :: _ => if b = 0x85 ∨ b = 0xa0 then 2 else 0
  | 0xe1 :: b :: c :: _ => if b = 0x9a ∧ c = 0x80 then 3 else 0
  | 0xe2 :: b :: c :: _ =>
    if b = 0x80 ∧ ((0x80 ≤ c ∧ c ≤ 0x8a) ∨ c = 0xa8 ∨ c = 0xa9 ∨ c = 0xaf) then 3
    else if b = 0x81 ∧ c = 0x9f then 3
    else 0
  | 0xe3 :: b :: c :: _ => if b = 0x80 ∧ c = 0x80 then 3 else 0
  | _ => 0

/-- The words from here on: `skip` bytes of white space are still to pass, and
`word` has been read. -/
def fieldsFrom : Nat → List UInt8 → List UInt8 → List (List UInt8)
  | _, word, [] => if word = [] then [] else [word]
  | skip + 1, word, _ :: rest => fieldsFrom skip word rest
  | 0, word, b :: rest =>
    match spaceLen (b :: rest) with
    | 0 => fieldsFrom 0 (word ++ [b]) rest
    | n + 1 => (if word = [] then [] else [word]) ++ fieldsFrom n [] rest

/-- `strings.Fields`. -/
def fields (s : List UInt8) : List (List UInt8) := fieldsFrom 0 [] s

/-- Printable ASCII other than the space. -/
def Printable (b : UInt8) : Prop := 0x21 ≤ b ∧ b < 0x7f

instance (b : UInt8) : Decidable (Printable b) := inferInstanceAs (Decidable (_ ∧ _))

theorem spaceLen_printable {b : UInt8} (h : Printable b) (rest : List UInt8) :
    spaceLen (b :: rest) = 0 := by
  have hlo : 0x21 ≤ b := h.1
  have hhi : b < 0x7f := h.2
  unfold spaceLen
  -- every byte that starts a white space lies outside the range
  split <;> first
    | rfl
    | (rename_i heq; cases heq; exact absurd hlo (by decide))
    | (rename_i heq; cases heq; exact absurd hhi (by decide))

variable {s : List UInt8} {parts : List (List UInt8)}

theorem fieldsFrom_printable (h : ∀ b ∈ s, Printable b) (word : List UInt8) :
    fieldsFrom 0 word s = if word ++ s = [] then [] else [word ++ s] := by
  induction s generalizing word with
  | nil => simp [fieldsFrom]
  | cons b rest ih =>
    rw [fieldsFrom, spaceLen_printable (h b List.mem_cons_self)]
    rw [ih (fun c hc => h c (List.mem_cons_of_mem b hc)), List.append_assoc, List.singleton_append]

/-- Printable text is one word. -/
theorem fields_printable (h : ∀ b ∈ s, Printable b) (hne : s ≠ []) : fields s = [s] := by
  rw [fields, fieldsFrom_printable h, List.nil_append, if_neg hne]

theorem mem_of_mem_intersperse {α : Type} {sep part : α} {parts : List α}
    (h : part ∈ parts.intersperse sep) : part = sep ∨ part ∈ parts := by
  induction parts with
  | nil => cases h
  | cons first parts ih =>
    cases parts with
    | nil => exact .inr h
    | cons second parts =>
      rcases List.mem_cons.mp h with rfl | h
      · exact .inr List.mem_cons_self
      rcases List.mem_cons.mp h with rfl | h
      · exact .inl rfl
      · exact (ih h).imp_right (List.mem_cons_of_mem first)

theorem mem_intersperse {α : Type} {sep part : α} {parts : List α} (h : part ∈ parts) :
    part ∈ parts.intersperse sep := by
  induction parts with
  | nil => cases h
  | cons first rest ih =>
    cases rest with
    | nil => exact h
    | cons second rest =>
      show part ∈ first :: sep :: (second :: rest).intersperse sep
      rcases List.mem_cons.mp h with rfl | h
      · exact List.mem_cons_self
      · exact List.mem_cons_of_mem _ (List.mem_cons_of_mem _ (ih h))

theorem mem_intercalate {sep : List UInt8} {c : UInt8} (h : c ∈ List.intercalate sep parts) :
    c ∈ sep ∨ ∃ part ∈ parts, c ∈ part := by
  obtain ⟨part, hpart, hc⟩ := List.mem_flatten.mp h
  rcases mem_of_mem_intersperse hpart with rfl | hpart
  · exact .inl hc
  · exact .inr ⟨part, hpart, hc⟩

theorem eq_nil_of_intercalate {sep : List UInt8} (h : List.intercalate sep parts = []) :
    ∀ part ∈ parts, part = [] := by
  intro part hpart
  exact List.flatten_eq_nil_iff.mp h part (mem_intersperse hpart)

/-- The text after its leading white space, `skip` bytes of which are still to pass. -/
def trimLeftFrom : Nat → List UInt8 → List UInt8
  | _, [] => []
  | skip + 1, _ :: rest => trimLeftFrom skip rest
  | 0, b :: rest =>
    match spaceLen (b :: rest) with
    | 0 => b :: rest
    | n + 1 => trimLeftFrom n rest

/-- The text up to its last byte that is not of a white space; `skip` bytes of one
are still to pass. -/
def trimRightFrom : Nat → List UInt8 → List UInt8
  | _, [] => []
  | skip + 1, b :: rest =>
    if trimRightFrom skip rest = [] then [] else b :: trimRightFrom skip rest
  | 0, b :: rest =>
    match spaceLen (b :: rest) with
    | 0 => b :: trimRightFrom 0 rest
    | n + 1 => if trimRightFrom n rest = [] then [] else b :: trimRightFrom n rest

/-- `strings.TrimSpace`. -/
def trimSpace (s : List UInt8) : List UInt8 := trimRightFrom 0 (trimLeftFrom 0 s)

/-- A piece of a message made by `fmt.Errorf`: literal text, or the text that a `%q`
prints. -/
inductive Piece
  | text (s : String)
  | quoted (s : List UInt8)
  deriving DecidableEq, Repr

/-- `strings.Trim` of one byte. -/
def trimByte (c : UInt8) (s : List UInt8) : List UInt8 :=
  ((s.dropWhile (· = c)).reverse.dropWhile (· = c)).reverse

theorem length_le_intercalate (sep : UInt8) (parts : List (List UInt8)) :
    parts.length ≤ (List.intercalate [sep] parts).length + 1 := by
  induction parts with
  | nil => exact Nat.zero_le _
  | cons first parts ih =>
    cases parts with
    | nil => exact Nat.le_add_left _ _
    | cons second parts =>
      rw [List.intercalate_cons_cons, List.length_append, List.length_append, List.length_cons,
        List.length_singleton]
      omega

theorem dropWhile_replicate_append (c : UInt8) (n : Nat) (s : List UInt8) :
    (List.replicate n c ++ s).dropWhile (· = c) = s.dropWhile (· = c) := by
  induction n with
  | zero => rfl
  | succ n ih => rw [List.replicate_succ, List.cons_append, List.dropWhile_cons_of_pos (by simp), ih]

/-- Further bytes around the text are trimmed as well. -/
theorem trimByte_replicate (c : UInt8) (m n : Nat) (s : List UInt8) :
    trimByte c (List.replicate m c ++ s ++ List.replicate n c) = trimByte c s := by
  rw [trimByte, List.append_assoc, dropWhile_replicate_append, List.dropWhile_append]
  split
  · -- the text is all `c`, and so is what follows it
    rename_i hempty
    have hrep := dropWhile_replicate_append c n []
    rw [List.append_nil, List.dropWhile_nil] at hrep
    rw [hrep, trimByte, List.isEmpty_iff.mp hempty]
  · rw [List.reverse_append, List.reverse_replicate, dropWhile_replicate_append, trimByte]

theorem trimByte_eq_self {c : UInt8} (hfirst : s.head? ≠ some c) (hlast : s.getLast? ≠ some c) :
    trimByte c s = s := by
  have hkeep : ∀ t : List UInt8, t.head? ≠ some c → t.dropWhile (· = c) = t := by
    intro t ht
    cases t with
    | nil => rfl
    | cons b t =>
      have hb : b ≠ c := fun he => ht (by simp [he])
      rw [List.dropWhile_cons_of_neg (by simpa using hb)]
  rw [trimByte, hkeep s hfirst, hkeep s.reverse (by rwa [List.head?_reverse]), List.reverse_reverse]

/-- `strings.LastIndexByte`. -/
def lastIndexByte (c : UInt8) (s : List UInt8) : Option Nat :=
  (s.reverse.idxOf? c).map (s.length - 1 - ·)

/-- The host of `net.SplitHostPort`; `none` is any of its errors. -/
def splitHost (s : List UInt8) : Option (List UInt8) :=
  match lastIndexByte 0x3a s with
  | none => none
  | some i =>
    if s.head? = some 0x5b then
      match s.idxOf? 0x5d with
      | none => none
      | some close =>
        if close + 1 ≠ i then none
        else if (s.drop 1).contains 0x5b || (s.drop (close + 1)).contains 0x5d then none
        else some ((s.take close).drop 1)
    else if (s.take i).contains 0x3a then none
    else if s.contains 0x5b || s.contains 0x5d then none
    else some (s.take i)

/-- `strings.ToLower`, as far as a comparison with ASCII text can see it: the
runes whose lower case is ASCII are `A` to `Z`, `İ` and the Kelvin sign. -/
def toLower : List UInt8 → List UInt8
  | [] => []
  | 0xc4 :: 0xb0 :: rest => 0x69 :: toLower rest
  | 0xe2 :: 0x84 :: 0xaa :: rest => 0x6b :: toLower rest
  | b :: rest => (if 0x41 ≤ b ∧ b ≤ 0x5a then b + 0x20 else b) :: toLower rest

/-- `strings.ReplaceAll` of one byte. -/
def replaceByte (c : UInt8) (new : List UInt8) (s : List UInt8) : List UInt8 :=
  s.flatMap fun b => if b = c then new else [b]

/-! ### Runes -/

/-- The bytes that may stand second in the encoding of a rune that begins with `b`. -/
def SecondByte (b c : UInt8) : Prop :=
  (if b = 0xe0 then 0xa0 else if b = 0xf0 then 0x90 else 0x80) ≤ c ∧
    c ≤ (if b = 0xed then 0x9f else if b = 0xf4 then 0x8f else 0xbf)

def Continuation (c : UInt8) : Prop := 0x80 ≤ c ∧ c ≤ 0xbf

instance (b c : UInt8) : Decidable (SecondByte b c) := inferInstanceAs (Decidable (_ ∧ _))

instance (c : UInt8) : Decidable (Continuation c) := inferInstanceAs (Decidable (_ ∧ _))

/-- The number of bytes of the rune at the head of the text, as a `range` over a string
finds it: a byte that starts no valid encoding is a rune by itself. -/
def runeLen : List UInt8 → Nat
  | b :: c :: rest =>
    if 0xc2 ≤ b ∧ b ≤ 0xdf ∧ SecondByte b c then 2
    else if 0xe0 ≤ b ∧ b ≤ 0xef ∧ SecondByte b c then
      match rest with
      | d :: _ => if Continuation d then 3 else 1
      | [] => 1
    else if 0xf0 ≤ b ∧ b ≤ 0xf4 ∧ SecondByte b c then
      match rest with
      | d :: e :: _ => if Continuation d ∧ Continuation e then 4 else 1
      | _ => 1
    else 1
  | _ => 1

theorem runeLen_ascii {b : UInt8} (h : b < 0x80) (rest : List UInt8) : runeLen (b :: rest) = 1 := by
  cases rest with
  | nil => rfl
  | cons c rest =>
    have hlo : ∀ low : UInt8, 0x80 ≤ low → ¬ low ≤ b := by
      intro low hlow hle
      exact absurd (UInt8.le_trans hlow hle) (UInt8.not_le.mpr h)
    have h2 : ¬ (0xc2 ≤ b ∧ b ≤ 0xdf ∧ SecondByte b c) := fun hb => hlo 0xc2 (by decide) hb.1
    have h3 : ¬ (0xe0 ≤ b ∧ b ≤ 0xef ∧ SecondByte b c) := fun hb => hlo 0xe0 (by decide) hb.1
    have h4 : ¬ (0xf0 ≤ b ∧ b ≤ 0xf4 ∧ SecondByte b c) := fun hb => hlo 0xf0 (by decide) hb.1
    simp only [runeLen, if_neg h2, if_neg h3, if_neg h4]

/-! ### Numbers -/

def isDigit (b : UInt8) : Bool := 0x30 ≤ b ∧ b ≤ 0x39

/-- The value of a non-empty run of decimal digits. -/
def decimalValue (s : List UInt8) : Option Nat :=
  if s ≠ [] ∧ s.all isDigit then some (s.foldl (fun n b => n * 10 + (b.toNat - 48)) 0) else none

def maxInt64 : Nat := 9223372036854775807

/-- `strconv.Atoi` with a 64-bit `int`; `none` is any of its errors. -/
def atoi (s : List UInt8) : Option Int :=
  match s with
  | 0x2d :: digits =>
    match decimalValue digits with
    | some n => if n ≤ maxInt64 + 1 then some (-n) else none
    | none => none
  | 0x2b :: digits =>
    match decimalValue digits with
    | some n => if n ≤ maxInt64 then some n else none
    | none => none
  | digits =>
    match decimalValue digits with
    | some n => if n ≤ maxInt64 then some n else none
    | none => none

/-- A lower-case hexadecimal digit. -/
def hexDigit (n : Nat) : UInt8 := UInt8.ofNat (if n < 10 then 0x30 + n else 0x61 + (n - 10))

/-- The digits of `n` in front of `acc`. -/
def decimalOnto : Nat → Nat → List UInt8 → List UInt8
  | 0, _, acc => acc
  | fuel + 1, n, acc =>
    let acc := UInt8.ofNat (48 + n % 10) :: acc
    if n / 10 = 0 then acc else decimalOnto fuel (n / 10) acc

/-- The verb `%d`. -/
def decimal (n : Int) : List UInt8 :=
  if n < 0 then 0x2d :: decimalOnto (n.natAbs + 1) n.natAbs []
  else decimalOnto (n.natAbs + 1) n.natAbs []

theorem isDigit_ofNat : ∀ d : Fin 10, isDigit (UInt8.ofNat (48 + d)) = true := by decide

theorem forall_decimalOnto {P : UInt8 → Prop} (hdigit : ∀ d : Fin 10, P (UInt8.ofNat (48 + d)))
    (fuel n : Nat) {acc : List UInt8} (h : ∀ b ∈ acc, P b) : ∀ b ∈ decimalOnto fuel n acc, P b := by
  induction fuel generalizing n acc with
  | zero => exact h
  | succ fuel ih =>
    have hacc : ∀ b ∈ UInt8.ofNat (48 + n % 10) :: acc, P b := by
      intro b hb
      rcases List.mem_cons.mp hb with rfl | hb
      · exact hdigit ⟨n % 10, Nat.mod_lt n (by decide)⟩
      · exact h b hb
    rw [decimalOnto]
    split
    · exact hacc
    · exact ih (n / 10) hacc

/-- What holds of the minus sign and of the digits holds of all bytes of a number. -/
theorem forall_decimal {P : UInt8 → Prop} (hsign : P 0x2d)
    (hdigit : ∀ d : Fin 10, P (UInt8.ofNat (48 + d))) (n : Int) : ∀ b ∈ decimal n, P b := by
  have hdigits : ∀ b ∈ decimalOnto (n.natAbs + 1) n.natAbs [], P b :=
    forall_decimalOnto hdigit _ _ (by simp)
  unfold decimal
  split
  · intro b hb
    rcases List.mem_cons.mp hb with rfl | hb
    · exact hsign
    · exact hdigits b hb
  · exact hdigits

theorem printable_decimal (n : Int) : ∀ b ∈ decimal n, Printable b :=
  forall_decimal (by decide) (by decide) n

/-- The value read from the printed digits, with anything before and after them. -/
theorem foldl_decimalOnto : ∀ (fuel n : Nat) (acc : List UInt8), n < fuel →
    (decimalOnto fuel n acc).foldl (fun n b => n * 10 + (b.toNat - 48)) 0 =
      acc.foldl (fun n b => n * 10 + (b.toNat - 48)) n := by
  intro fuel
  induction fuel with
  | zero => intro n acc h; omega
  | succ fuel ih =>
    intro n acc h
    have hdigit : (UInt8.ofNat (48 + n % 10)).toNat - 48 = n % 10 := by
      rw [UInt8.toNat_ofNat']
      omega
    rw [decimalOnto]
    split
    · rw [List.foldl_cons]
      congr 1
      omega
    rename_i hlarge
    rw [ih (n / 10) _ (by omega), List.foldl_cons]
    congr 1
    omega

theorem decimalOnto_injective {m n : Nat}
    (h : decimalOnto (m + 1) m [] = decimalOnto (n + 1) n []) : m = n := by
  have hm := foldl_decimalOnto (m + 1) m [] m.lt_succ_self
  rw [h, foldl_decimalOnto (n + 1) n [] n.lt_succ_self] at hm
  exact hm.symm

theorem sign_ne_decimalOnto (fuel n : Nat) (digits : List UInt8) :
    0x2d :: digits ≠ decimalOnto fuel n [] := by
  intro h
  have hsign : isDigit 0x2d = true :=
    forall_decimalOnto (P := fun b => isDigit b = true) isDigit_ofNat fuel n (by simp) 0x2d
      (h ▸ List.mem_cons_self)
  exact absurd hsign (by decide)

/-- Numbers print differently. -/
theorem decimal_injective : ∀ m n : Int, decimal m = decimal n → m = n := by
  intro m n h
  unfold decimal at h
  split at h
  · split at h
    · have habs := decimalOnto_injective (List.cons.inj h).2
      omega
    · exact absurd h (sign_ne_decimalOnto _ _ _)
  split at h
  · exact absurd h.symm (sign_ne_decimalOnto _ _ _)
  have habs := decimalOnto_injective h
  omega

/-! ### Leading zeros -/

/-- A text without a sign is read as its digits. -/
theorem atoi_unsigned (hminus : s.head? ≠ some 0x2d) (hplus : s.head? ≠ some 0x2b) :
    atoi s = match decimalValue s with
      | some n => if n ≤ maxInt64 then some (n : Int) else none
      | none => none := by
  unfold atoi
  split
  · exact absurd rfl hminus
  · exact absurd rfl hplus
  · rfl

theorem isDigit_of_decimalValue {n : Nat} (h : decimalValue s = some n) :
    ∀ c ∈ s, isDigit c = true := by
  unfold decimalValue at h
  split at h
  · rename_i hdigits
    exact List.all_eq_true.mp hdigits.2
  · cases h

theorem decimalValue_zeros (k : Nat) (h : s ≠ []) :
    decimalValue (List.replicate k 0x30 ++ s) = decimalValue s := by
  induction k with
  | zero => rfl
  | succ k ih =>
    have hne : List.replicate k 0x30 ++ s ≠ [] := by simp [h]
    rw [List.replicate_succ, ← ih]
    simp [decimalValue, hne, isDigit]

theorem all_isDigit_zeros (k : Nat) (h : s.all isDigit = true) :
    (List.replicate k 0x30 ++ s).all isDigit = true := by
  rw [List.all_append, h, List.all_replicate]
  split
  · rfl
  · decide

/-- Zeros in front of the digits do not change the number. -/
theorem atoi_zeros (k : Nat) (hne : s ≠ []) (h : s.all isDigit = true) :
    atoi (List.replicate k 0x30 ++ s) = atoi s := by
  have hsign : ∀ {t : List UInt8} {c : UInt8}, t.all isDigit = true → isDigit c = false →
      t.head? ≠ some c := by
    intro t c ht hc hhead
    rw [List.all_eq_true.mp ht c (List.mem_of_mem_head? hhead)] at hc
    cases hc
  have hz := all_isDigit_zeros k h
  rw [atoi_unsigned (hsign h rfl) (hsign h rfl), atoi_unsigned (hsign hz rfl) (hsign hz rfl),
    decimalValue_zeros k hne]

end SharkSocket.Lib
