import SharkSocket.Lib.Ip

/-!
# Printed addresses are read back

`parseIP_ipString`: the text of an address of four or sixteen bytes is parsed to that
address.  A dotted quad goes through digit by digit.  An IPv6 address is eight groups, the
first longest run of zero groups written as `::`; the parser is run over the groups before
it and over those behind it (`ipv6Loop_groups_ellipsis`, `ipv6Loop_groups`), and puts back
as many zero bytes as are missing.
-/

namespace SharkSocket.Lib

/-! ### Dotted quads -/

theorem ipv4Loop_digit {d val digLen : Nat} (hd : d < 10) (hzero : ¬ (digLen = 1 ∧ val = 0))
    (hmax : val * 10 + d ≤ 255) (rest octets : List UInt8) :
    ipv4Loop (UInt8.ofNat (48 + d) :: rest) val digLen octets =
      ipv4Loop rest (val * 10 + d) (digLen + 1) octets := by
  have hdigit : isDigit (UInt8.ofNat (48 + d)) = true := isDigit_ofNat ⟨d, hd⟩
  have hvalue : (UInt8.ofNat (48 + d)).toNat - 48 = d := by
    rw [UInt8.toNat_ofNat']
    omega
  rw [ipv4Loop, if_pos hdigit, if_neg hzero, hvalue, if_neg (by omega)]

/-- The digits of a byte. -/
theorem decimal_byte : ∀ n : Fin 256, decimal (n.val : Int) =
    if n.val < 10 then [UInt8.ofNat (48 + n.val)]
    else if n.val < 100 then [UInt8.ofNat (48 + n.val / 10), UInt8.ofNat (48 + n.val % 10)]
    else [UInt8.ofNat (48 + n.val / 100), UInt8.ofNat (48 + n.val / 10 % 10),
      UInt8.ofNat (48 + n.val % 10)] := by
  decide +kernel

/-- A field of a dotted quad is read to the end. -/
theorem ipv4Loop_decimal (b : UInt8) (rest octets : List UInt8) : ∃ digLen, digLen ≠ 0 ∧
    ipv4Loop (decimal b.toNat ++ rest) 0 0 octets = ipv4Loop rest b.toNat digLen octets := by
  have hb : b.toNat < 256 := b.toNat_lt
  rw [decimal_byte ⟨b.toNat, hb⟩]
  dsimp only
  split
  · rename_i h10
    refine ⟨1, Nat.one_ne_zero, ?_⟩
    rw [List.singleton_append, ipv4Loop_digit h10 (by omega) (by omega), Nat.zero_add]
  split
  · refine ⟨2, by omega, ?_⟩
    rw [List.cons_append, List.singleton_append, ipv4Loop_digit (by omega) (by omega) (by omega),
      ipv4Loop_digit (by omega) (by omega) (by omega)]
    congr 1
    omega
  refine ⟨3, by omega, ?_⟩
  rw [List.cons_append, List.cons_append, List.singleton_append,
    ipv4Loop_digit (by omega) (by omega) (by omega),
    ipv4Loop_digit (by omega) (by omega) (by omega),
    ipv4Loop_digit (by omega) (by omega) (by omega)]
  congr 1
  omega

theorem ipv4Loop_dot {val digLen : Nat} {rest octets : List UInt8} (hlen : digLen ≠ 0)
    (hrest : rest ≠ []) (hoctets : octets.length ≠ 3) : ipv4Loop (0x2e :: rest) val digLen octets =
      ipv4Loop rest 0 0 (octets ++ [UInt8.ofNat val]) := by
  rw [ipv4Loop, if_neg (by decide), if_pos rfl, if_neg (by simp [hlen, hrest]), if_neg hoctets]

theorem decimal_ne_nil (b : UInt8) : decimal b.toNat ≠ [] := by
  have hb : b.toNat < 256 := b.toNat_lt
  rw [decimal_byte ⟨b.toNat, hb⟩]
  split_ifs <;> exact List.cons_ne_nil _ _

/-- The fields that are left are read one by one. -/
theorem ipv4Loop_fields : ∀ (fields : List UInt8), fields ≠ [] → ∀ octets : List UInt8,
    octets.length + fields.length = 4 →
    ipv4Loop (List.intercalate [0x2e] (fields.map fun b => decimal b.toNat)) 0 0 octets =
      some (octets ++ fields) := by
  intro fields
  induction fields with
  | nil => intro h; exact absurd rfl h
  | cons b fields ih =>
    intro _ octets hlen
    rw [List.length_cons] at hlen
    cases fields with
    | nil =>
      obtain ⟨digLen, -, hread⟩ := ipv4Loop_decimal b [] octets
      have hthree : octets.length = 3 := by simpa using hlen
      show ipv4Loop (decimal b.toNat ++ []) 0 0 octets = _
      rw [hread, ipv4Loop, if_pos hthree, UInt8.ofNat_toNat]
    | cons c fields =>
      have hne : List.intercalate [0x2e] ((c :: fields).map fun b => decimal b.toNat) ≠ [] := by
        intro hnil
        exact decimal_ne_nil c (eq_nil_of_intercalate hnil _ (List.mem_cons_self))
      obtain ⟨digLen, hdig, hread⟩ := ipv4Loop_decimal b
        (0x2e :: List.intercalate [0x2e] ((c :: fields).map fun b => decimal b.toNat)) octets
      rw [List.length_cons] at hlen
      show ipv4Loop (decimal b.toNat ++ (0x2e :: List.intercalate [0x2e]
        ((c :: fields).map fun b => decimal b.toNat))) 0 0 octets = _
      rw [hread, ipv4Loop_dot hdig hne (by omega), UInt8.ofNat_toNat,
        ih (List.cons_ne_nil _ _) (octets ++ [b]) (by simp; omega), List.append_assoc,
        List.singleton_append]

theorem parseIPv4_intercalate {quad : List UInt8} (h : quad.length = 4) :
    parseIPv4 (List.intercalate [0x2e] (quad.map fun b => decimal b.toNat)) = some quad := by
  have hne : quad ≠ [] := by
    rintro rfl
    cases h
  rw [parseIPv4, ipv4Loop_fields quad hne [] (by simpa using h), List.nil_append]

/-! ### Groups -/

/-- The two bytes of a group. -/
def groupBytes (n : Nat) : List UInt8 := [UInt8.ofNat (n / 256), UInt8.ofNat n]

theorem isHex_hexDigit : ∀ d : Fin 16, isHex (hexDigit d) = true := by decide

theorem hexDigitValue_hexDigit : ∀ d : Fin 16, hexDigitValue (hexDigit d) = d := by decide

theorem isHex_hexText {n : Nat} (h : n < 65536) : ∀ c ∈ hexText n, isHex c = true := by
  have hdigit : ∀ d, d < 16 → isHex (hexDigit d) = true := fun d hd => isHex_hexDigit ⟨d, hd⟩
  intro c hc
  simp only [hexText, List.mem_append, List.mem_ite_nil_right, List.mem_singleton] at hc
  rcases hc with ((⟨-, rfl⟩ | ⟨-, rfl⟩) | ⟨-, rfl⟩) | rfl <;> exact hdigit _ (by omega)

theorem length_hexText (n : Nat) : (hexText n).length ≠ 0 ∧ (hexText n).length ≤ 4 := by
  unfold hexText
  simp only [List.length_append, List.length_singleton, apply_ite List.length, List.length_nil]
  split_ifs
  all_goals omega

theorem hexGroup_hexText {n : Nat} (h : n < 65536) : hexGroup (hexText n) = groupBytes n := by
  have hvalue : ∀ d, d < 16 → hexDigitValue (hexDigit d) = d :=
    fun d hd => hexDigitValue_hexDigit ⟨d, hd⟩
  have h0 := hvalue (n % 16) (by omega)
  have h1 := hvalue (n / 0x10 % 16) (by omega)
  have h2 := hvalue (n / 0x100 % 16) (by omega)
  have h3 := hvalue (n / 0x1000) (by omega)
  have hfold : (hexText n).foldl (fun n b => n * 16 + hexDigitValue b) 0 = n := by
    unfold hexText
    split_ifs
    all_goals
      simp only [List.nil_append, List.cons_append, List.foldl_cons, List.foldl_nil, h0, h1, h2, h3]
      omega
  unfold hexGroup groupBytes
  rw [hfold]

theorem takeWhile_hexText {n : Nat} (h : n < 65536) (rest : List UInt8)
    (hrest : ∀ c ∈ rest.head?, isHex c = false) : (hexText n ++ rest).takeWhile isHex = hexText n ∧
      (hexText n ++ rest).dropWhile isHex = rest := by
  have hstop : rest.takeWhile isHex = [] ∧ rest.dropWhile isHex = rest := by
    cases rest with
    | nil => exact ⟨rfl, rfl⟩
    | cons c rest =>
      have hc := hrest c rfl
      rw [List.takeWhile_cons_of_neg (by simp [hc]), List.dropWhile_cons_of_neg (by simp [hc])]
      exact ⟨rfl, rfl⟩
  constructor
  · rw [List.takeWhile_append_of_pos (isHex_hexText h), hstop.1, List.append_nil]
  · rw [List.dropWhile_append_of_pos (isHex_hexText h), hstop.2]

section Turns

variable {n fuel : Nat} (h : n < 65536) (ip : List UInt8) (ellipsis : Option Nat)

include h

theorem ipv6Loop_last :
    ipv6Loop (fuel + 1) (hexText n) ip ellipsis = some ⟨[], ip ++ groupBytes n, ellipsis⟩ := by
  obtain ⟨htake, hdrop⟩ := takeWhile_hexText h [] (by simp)
  rw [List.append_nil] at htake hdrop
  have hlen := length_hexText n
  rw [ipv6Loop, htake, hdrop]
  rw [if_neg (by omega), hexGroup_hexText h]

theorem ipv6Loop_colon {c : UInt8} (hc : c ≠ 0x3a) (rest : List UInt8) :
    ipv6Loop (fuel + 1) (hexText n ++ 0x3a :: c :: rest) ip ellipsis =
      ipv6Loop fuel (c :: rest) (ip ++ groupBytes n) ellipsis := by
  obtain ⟨htake, hdrop⟩ := takeWhile_hexText h (0x3a :: c :: rest) (by simp; decide)
  have hlen := length_hexText n
  rw [ipv6Loop, htake, hdrop, if_neg (by omega), hexGroup_hexText h]
  split
  · rename_i heq
    cases heq
  · rename_i heq
    cases heq
  · rename_i heq
    cases heq
    exact absurd rfl hc
  · rename_i heq
    cases heq
    rfl
  rename_i hother
  exact absurd rfl (hother c rest)

theorem ipv6Loop_ellipsis (rest : List UInt8) :
    ipv6Loop (fuel + 1) (hexText n ++ 0x3a :: 0x3a :: rest) ip none =
      if rest = [] then some ⟨[], ip ++ groupBytes n, some (ip.length + 2)⟩
      else ipv6Loop fuel rest (ip ++ groupBytes n) (some (ip.length + 2)) := by
  obtain ⟨htake, hdrop⟩ := takeWhile_hexText h (0x3a :: 0x3a :: rest) (by simp; decide)
  have hlen := length_hexText n
  rw [ipv6Loop, htake, hdrop, if_neg (by omega), hexGroup_hexText h]
  simp only [ne_eq, not_true_eq_false, if_false]

end Turns

/-- The text of some groups. -/
def groupsText (groups : List Nat) : List UInt8 := List.intercalate [0x3a] (groups.map hexText)

theorem groupsText_cons_cons (g g' : Nat) (groups : List Nat) :
    groupsText (g :: g' :: groups) = hexText g ++ 0x3a :: groupsText (g' :: groups) := rfl

/-- Groups start with a digit. -/
theorem groupsText_eq_cons {g : Nat} (hg : g < 65536) (groups : List Nat) :
    ∃ c rest, groupsText (g :: groups) = c :: rest ∧ c ≠ 0x3a := by
  obtain ⟨c, rest, hc⟩ := List.exists_cons_of_ne_nil
    (List.length_pos_iff.mp (Nat.pos_of_ne_zero (length_hexText g).1))
  have hhex := isHex_hexText hg c (by rw [hc]; exact List.mem_cons_self)
  have hne : c ≠ 0x3a := by
    rintro rfl
    exact absurd hhex (by decide)
  cases groups with
  | nil => exact ⟨c, rest, by rw [← hc]; exact List.append_nil _, hne⟩
  | cons g' groups =>
    refine ⟨c, rest ++ 0x3a :: groupsText (g' :: groups), ?_, hne⟩
    rw [groupsText_cons_cons, hc, List.cons_append]

/-- **A run over groups up to the last one.** -/
theorem ipv6Loop_init (tail : List UInt8) (fuel : Nat) (ellipsis : Option Nat) :
    ∀ (groups : List Nat), groups ≠ [] → (∀ g ∈ groups, g < 65536) → ∀ ip, ∃ init last,
      groups = init ++ [last] ∧
        ipv6Loop (groups.length + fuel) (groupsText groups ++ tail) ip ellipsis =
          ipv6Loop (fuel + 1) (hexText last ++ tail) (ip ++ init.flatMap groupBytes) ellipsis := by
  intro groups
  induction groups with
  | nil => intro h; exact absurd rfl h
  | cons g groups ih =>
    intro _ hall ip
    obtain ⟨hg, hrest⟩ := List.forall_mem_cons.mp hall
    cases groups with
    | nil =>
      have htext : groupsText [g] = hexText g := List.append_nil _
      refine ⟨[], g, rfl, ?_⟩
      rw [htext, List.flatMap_nil, List.append_nil, List.length_singleton, Nat.add_comm]
    | cons g' groups =>
      obtain ⟨c, rest, htext, hc⟩ := groupsText_eq_cons (hrest g' List.mem_cons_self) groups
      obtain ⟨init, last, hsplit, hloop⟩ := ih (List.cons_ne_nil _ _) hrest (ip ++ groupBytes g)
      refine ⟨g :: init, last, by rw [hsplit, List.cons_append], ?_⟩
      rw [groupsText_cons_cons, List.append_assoc, List.cons_append, htext, List.cons_append,
        List.length_cons, Nat.add_right_comm, ipv6Loop_colon hg ip ellipsis hc,
        ← List.cons_append, ← htext, hloop, List.flatMap_cons, List.append_assoc]

section Runs

variable {groups : List Nat} (hne : groups ≠ []) (hall : ∀ g ∈ groups, g < 65536)

include hne hall

/-- Groups to the end of the text. -/
theorem ipv6Loop_groups {fuel : Nat} (ip : List UInt8) (ellipsis : Option Nat)
    (hfuel : groups.length ≤ fuel) : ipv6Loop fuel (groupsText groups) ip ellipsis =
      some ⟨[], ip ++ groups.flatMap groupBytes, ellipsis⟩ := by
  obtain ⟨extra, rfl⟩ := Nat.exists_eq_add_of_le hfuel
  obtain ⟨init, last, rfl, hloop⟩ := ipv6Loop_init [] extra ellipsis groups hne hall ip
  rw [List.append_nil, List.append_nil] at hloop
  rw [hloop, ipv6Loop_last (hall last (by simp)), List.flatMap_append, List.append_assoc]
  rfl

/-- Groups up to `::`. -/
theorem ipv6Loop_groups_ellipsis (tail : List UInt8) (fuel : Nat) (ip : List UInt8) :
    ipv6Loop (groups.length + fuel) (groupsText groups ++ 0x3a :: 0x3a :: tail) ip none =
      if tail = [] then
        some ⟨[], ip ++ groups.flatMap groupBytes, some (ip ++ groups.flatMap groupBytes).length⟩
      else ipv6Loop fuel tail (ip ++ groups.flatMap groupBytes)
          (some (ip ++ groups.flatMap groupBytes).length) := by
  obtain ⟨init, last, rfl, hloop⟩ :=
    ipv6Loop_init (0x3a :: 0x3a :: tail) fuel none groups hne hall ip
  have hbytes : ip ++ (init ++ [last]).flatMap groupBytes =
      ip ++ init.flatMap groupBytes ++ groupBytes last := by
    rw [List.flatMap_append, List.append_assoc]
    rfl
  have hlen : (ip ++ init.flatMap groupBytes ++ groupBytes last).length =
      (ip ++ init.flatMap groupBytes).length + 2 := by
    rw [List.length_append]
    rfl
  rw [hloop, ipv6Loop_ellipsis (hall last (by simp)), hbytes, hlen]

end Runs

/-! ### The run of zeros -/

variable {groups : List Nat} {ip : List UInt8}

/-- The first longest run is a run of zero groups. -/
theorem longestZeros_spec {start run : Nat} (h : longestZeros groups = some (start, run)) :
    2 ≤ run ∧ (groups.drop start).take run = List.replicate run 0 := by
  have hinv : ∀ p, longestZeros groups = some p →
      2 ≤ p.2 ∧ (groups.drop p.1).take p.2 = List.replicate p.2 0 := by
    refine List.foldlRecOn (motive := fun best => ∀ p : Nat × Nat,
      best = some p → 2 ≤ p.2 ∧ (groups.drop p.1).take p.2 = List.replicate p.2 0)
      _ _ (by rintro p ⟨⟩) ?_
    intro best hbest i _ p hp
    dsimp only at hp
    split at hp
    · rename_i hrun
      cases hp
      have hzeros : (groups.drop i).takeWhile (· = 0) =
          List.replicate ((groups.drop i).takeWhile (· = 0)).length 0 := by
        refine List.eq_replicate_iff.mpr ⟨rfl, fun x hx => ?_⟩
        simpa using List.mem_takeWhile_imp hx
      refine ⟨hrun.1, ?_⟩
      rw [← hzeros]
      exact (List.prefix_iff_eq_take.mp (List.takeWhile_prefix _)).symm
    · exact hbest p hp
  exact hinv (start, run) h

theorem groupsOf_spec : ∀ ip : List UInt8, ip.length % 2 = 0 →
    (∀ g ∈ groupsOf ip, g < 65536) ∧ (groupsOf ip).flatMap groupBytes = ip := by
  intro ip
  induction ip using groupsOf.induct with
  | case1 hi lo rest ih =>
    intro hlen
    obtain ⟨hall, hbytes⟩ := ih (by simp only [List.length_cons] at hlen; omega)
    have hhi : hi.toNat < 256 := hi.toNat_lt
    have hlo : lo.toNat < 256 := lo.toNat_lt
    have hgroup : groupBytes (hi.toNat * 256 + lo.toNat) = [hi, lo] := by
      have h1 : (hi.toNat * 256 + lo.toNat) / 256 = hi.toNat := by omega
      have h2 : UInt8.ofNat (hi.toNat * 256 + lo.toNat) = lo := by
        apply UInt8.toNat_inj.mp
        rw [UInt8.toNat_ofNat']
        omega
      rw [groupBytes, h1, h2, UInt8.ofNat_toNat]
    rw [groupsOf]
    refine ⟨?_, ?_⟩
    · intro g hg
      rcases List.mem_cons.mp hg with rfl | hg
      · omega
      · exact hall g hg
    · rw [List.flatMap_cons, hgroup, hbytes]
      rfl
  | case2 rest hshort =>
    intro hlen
    cases rest with
    | nil => exact ⟨by rintro g ⟨⟩, rfl⟩
    | cons a rest =>
      cases rest with
      | nil => cases hlen
      | cons b rest => exact absurd rfl (hshort a b rest)

theorem length_flatMap_groupBytes (groups : List Nat) :
    (groups.flatMap groupBytes).length = 2 * groups.length := by
  induction groups with
  | nil => rfl
  | cons g groups ih =>
    rw [List.flatMap_cons, List.length_append, ih, List.length_cons]
    show 2 + 2 * groups.length = _
    omega

/-! ### IPv6 -/

theorem parseIPv6_groups {s : List UInt8} (hpercent : 0x25 ∉ s) {c : UInt8} {rest : List UInt8}
    (hs : s = c :: rest) (hc : c ≠ 0x3a) :
    parseIPv6 s = (ipv6Loop 8 s [] none).bind ipv6Expand := by
  subst hs
  unfold parseIPv6
  rw [if_neg hpercent]
  split
  · rename_i heq
    cases heq
    exact absurd rfl hc
  · rename_i heq
    cases heq
    exact absurd rfl hc
  · rfl

/-- `::` stands for the zero bytes that are missing. -/
theorem ipv6Expand_ellipsis {front back : List UInt8} {n : Nat}
    (h : front.length + n + back.length = 16) (hn : n ≠ 0) :
    ipv6Expand ⟨[], front ++ back, some front.length⟩ =
      some (front ++ List.replicate n 0 ++ back) := by
  have hlen : (front ++ back).length < 16 := by
    rw [List.length_append]
    omega
  have hmissing : 16 - (front ++ back).length = n := by
    rw [List.length_append]
    omega
  unfold ipv6Expand
  dsimp only
  rw [if_neg (by simp), if_pos hlen, hmissing, List.take_left, List.drop_left]

/-- The bytes of groups are digits and colons. -/
theorem mem_groupsText (hall : ∀ g ∈ groups, g < 65536) :
    ∀ c ∈ groupsText groups, isHex c = true ∨ c = 0x3a := by
  intro c hc
  rcases mem_intercalate hc with hc | ⟨part, hpart, hc⟩
  · exact .inr (List.mem_singleton.mp hc)
  obtain ⟨g, hg, rfl⟩ := List.mem_map.mp hpart
  exact .inl (isHex_hexText (hall g hg) c hc)

/-- The text of an IPv6 address: digits and colons, with a colon in it. -/
theorem find_of_colon {s : List UInt8} (hall : ∀ c ∈ s, isHex c = true ∨ c = 0x3a)
    (hcolon : 0x3a ∈ s) :
    s.find? (fun c => c = 0x2e ∨ c = 0x3a ∨ c = 0x25) = some 0x3a ∧ 0x25 ∉ s := by
  have hdot : 0x2e ∉ s := fun hmem => absurd (hall _ hmem) (by decide)
  have hpercent : 0x25 ∉ s := fun hmem => absurd (hall _ hmem) (by decide)
  refine ⟨?_, hpercent⟩
  cases hfind : s.find? (fun c => c = 0x2e ∨ c = 0x3a ∨ c = 0x25) with
  | none => exact absurd (List.find?_eq_none.mp hfind 0x3a hcolon) (by decide)
  | some c =>
    have hmem := List.mem_of_find?_eq_some hfind
    have hp := List.find?_some hfind
    rw [decide_eq_true_iff] at hp
    rcases hp with rfl | rfl | rfl
    · exact absurd hmem hdot
    · rfl
    · exact absurd hmem hpercent

theorem parseIPv6_groupsText (hlen : groups.length = 8) (hall : ∀ g ∈ groups, g < 65536)
    (hpercent : 0x25 ∉ groupsText groups) :
    parseIPv6 (groupsText groups) = some (groups.flatMap groupBytes) := by
  have hne : groups ≠ [] := by
    rintro rfl
    cases hlen
  obtain ⟨g, rest, rfl⟩ := List.exists_cons_of_ne_nil hne
  obtain ⟨c, tail, htext, hc⟩ := groupsText_eq_cons (hall g List.mem_cons_self) rest
  have hbytes := length_flatMap_groupBytes (g :: rest)
  rw [parseIPv6_groups hpercent htext hc, ipv6Loop_groups hne hall [] none hlen.le]
  show ipv6Expand ⟨[], [] ++ (g :: rest).flatMap groupBytes, none⟩ = _
  unfold ipv6Expand
  rw [if_neg (by simp), List.nil_append, if_pos (by rw [hbytes, hlen])]

/-- Groups, `::` for the zero groups between, and groups again. -/
theorem parseIPv6_ellipsis {front back : List Nat} {run : Nat}
    (hlen : front.length + run + back.length = 8) (hrun : 2 ≤ run)
    (hfront : ∀ g ∈ front, g < 65536) (hback : ∀ g ∈ back, g < 65536)
    (hpercent : 0x25 ∉ groupsText front ++ 0x3a :: 0x3a :: groupsText back) :
    parseIPv6 (groupsText front ++ 0x3a :: 0x3a :: groupsText back) =
      some (front.flatMap groupBytes ++ List.replicate (2 * run) 0 ++ back.flatMap groupBytes) := by
  have hbytes : (front.flatMap groupBytes).length + 2 * run + (back.flatMap groupBytes).length =
      16 := by
    rw [length_flatMap_groupBytes, length_flatMap_groupBytes]
    omega
  have hexpand := ipv6Expand_ellipsis hbytes (by omega)
  -- the part behind `::`, which may be empty
  have htail : ∀ fuel, back.length ≤ fuel → ∀ ip ellipsis,
      (if groupsText back = [] then some ⟨[], ip, ellipsis⟩
        else ipv6Loop fuel (groupsText back) ip ellipsis) =
        some ⟨[], ip ++ back.flatMap groupBytes, ellipsis⟩ := by
    intro fuel hfuel ip ellipsis
    cases back with
    | nil =>
      have hnil : groupsText [] = [] := rfl
      rw [if_pos hnil, List.flatMap_nil, List.append_nil]
    | cons g back =>
      obtain ⟨c, tail, htext, -⟩ := groupsText_eq_cons (hback g List.mem_cons_self) back
      rw [if_neg (by rw [htext]; exact List.cons_ne_nil _ _),
        ipv6Loop_groups (List.cons_ne_nil _ _) hback ip ellipsis hfuel]
  cases front with
  | nil =>
    have hloop := htail 8 (by omega) [] (some 0)
    have hpercent' : 0x25 ∉ 0x3a :: 0x3a :: groupsText back := hpercent
    show parseIPv6 (0x3a :: 0x3a :: groupsText back) = _
    unfold parseIPv6
    rw [if_neg hpercent']
    split
    · rename_i heq
      have hnil : groupsText back = [] := by simpa using heq
      rw [if_pos hnil] at hloop
      have hback0 : back.flatMap groupBytes = [] := by
        rw [Option.some_inj, Ipv6Scan.mk.injEq] at hloop
        exact hloop.2.1.symm
      have hsixteen : 2 * run = 16 := by
        rw [hback0] at hbytes
        simpa using hbytes
      rw [hback0, hsixteen]
      rfl
    · rename_i rest hnot heq
      cases heq
      rw [if_neg (fun hnil => hnot (by rw [hnil]))] at hloop
      rw [hloop]
      exact hexpand
    · rename_i hnot
      exact absurd rfl (hnot _)
  | cons g rest =>
    obtain ⟨c, tail, htext, hc⟩ := groupsText_eq_cons (hfront g List.mem_cons_self) rest
    have hstart : groupsText (g :: rest) ++ 0x3a :: 0x3a :: groupsText back =
        c :: (tail ++ 0x3a :: 0x3a :: groupsText back) := by rw [htext, List.cons_append]
    have hfuel : 8 = (g :: rest).length + (8 - (g :: rest).length) := by omega
    rw [parseIPv6_groups hpercent hstart hc, hfuel,
      ipv6Loop_groups_ellipsis (List.cons_ne_nil _ _) hfront _ _ [], htail _ (by omega)]
    exact hexpand

/-- The text of an address as groups, with the run of zeros or without. -/
theorem ipv6String_cases (hlen : ip.length = 16) :
    (∃ groups, groups.length = 8 ∧ (∀ g ∈ groups, g < 65536) ∧ ip = groups.flatMap groupBytes ∧
      ipv6String ip = groupsText groups) ∨
    ∃ front back run, front.length + run + back.length = 8 ∧ 2 ≤ run ∧
      (∀ g ∈ front, g < 65536) ∧ (∀ g ∈ back, g < 65536) ∧
      ip = front.flatMap groupBytes ++ List.replicate (2 * run) 0 ++ back.flatMap groupBytes ∧
      ipv6String ip = groupsText front ++ 0x3a :: 0x3a :: groupsText back := by
  obtain ⟨hall, hbytes⟩ := groupsOf_spec ip (by omega)
  have height : (groupsOf ip).length = 8 := by
    have hl := length_flatMap_groupBytes (groupsOf ip)
    rw [hbytes] at hl
    omega
  unfold ipv6String
  dsimp only
  cases hz : longestZeros (groupsOf ip) with
  | none => exact .inl ⟨groupsOf ip, height, hall, hbytes.symm, rfl⟩
  | some p =>
    obtain ⟨start, run⟩ := p
    obtain ⟨hrun, hzeros⟩ := longestZeros_spec hz
    have hsplit : groupsOf ip = (groupsOf ip).take start ++
        (List.replicate run 0 ++ (groupsOf ip).drop (start + run)) := by
      rw [← hzeros, ← List.drop_drop, List.take_append_drop, List.take_append_drop]
    have hzerobytes : (List.replicate run 0).flatMap groupBytes = List.replicate (2 * run) 0 := by
      clear hsplit hzeros hrun hz
      induction run with
      | zero => rfl
      | succ run ih => rw [List.replicate_succ, List.flatMap_cons, ih]; rfl
    refine .inr ⟨(groupsOf ip).take start, (groupsOf ip).drop (start + run), run, ?_, hrun,
      fun g hg => hall g (List.mem_of_mem_take hg), fun g hg => hall g (List.mem_of_mem_drop hg),
      ?_, ?_⟩
    · have hl := congrArg List.length hsplit
      rw [List.length_append, List.length_append, List.length_replicate] at hl
      omega
    · conv_lhs => rw [← hbytes, hsplit]
      rw [List.flatMap_append, List.flatMap_append, hzerobytes, List.append_assoc]
    · dsimp only
      rw [List.append_assoc]
      rfl

/-- **The text of sixteen bytes is read back as IPv6.** -/
theorem parseIPv6_ipv6String (hlen : ip.length = 16) :
    parseIPv6 (ipv6String ip) = some ip ∧ 0x3a ∈ ipv6String ip ∧
      ∀ c ∈ ipv6String ip, isHex c = true ∨ c = 0x3a := by
  rcases ipv6String_cases hlen with ⟨groups, h8, hall, hip, htext⟩ |
    ⟨front, back, run, h8, hrun, hfront, hback, hip, htext⟩
  · have hmem := mem_groupsText hall
    have hcolon : 0x3a ∈ groupsText groups := by
      match groups, h8 with
      | g :: g' :: rest, _ => exact List.mem_append_right _ List.mem_cons_self
    rw [htext]
    refine ⟨?_, hcolon, hmem⟩
    rw [hip]
    exact parseIPv6_groupsText h8 hall (find_of_colon hmem hcolon).2
  · have hmem : ∀ c ∈ groupsText front ++ 0x3a :: 0x3a :: groupsText back,
        isHex c = true ∨ c = 0x3a := by
      intro c hc
      rw [List.mem_append, List.mem_cons, List.mem_cons] at hc
      rcases hc with hc | hc | hc | hc
      · exact mem_groupsText hfront c hc
      · exact .inr hc
      · exact .inr hc
      · exact mem_groupsText hback c hc
    have hcolon : 0x3a ∈ groupsText front ++ 0x3a :: 0x3a :: groupsText back :=
      List.mem_append_right _ List.mem_cons_self
    rw [htext]
    refine ⟨?_, hcolon, hmem⟩
    rw [hip]
    exact parseIPv6_ellipsis h8 hrun hfront hback (find_of_colon hmem hcolon).2

/-! ### Both -/

/-- The sixteen bytes of an address. -/
def to16 (ip : List UInt8) : List UInt8 := if ip.length = 4 then v4InV6Prefix ++ ip else ip

/-- An address in its short form: four bytes, or sixteen that are not a mapped IPv4. -/
def Reduced (ip : List UInt8) : Prop := ip.length = 4 ∨ (ip.length = 16 ∧ to4 ip = none)

theorem find_dotted {quad : List UInt8} (h : quad.length = 4) :
    (List.intercalate [0x2e] (quad.map fun b => decimal b.toNat)).find?
      (fun c => c = 0x2e ∨ c = 0x3a ∨ c = 0x25) = some 0x2e := by
  match quad, h with
  | a :: b :: rest, _ =>
    show (decimal a.toNat ++ (0x2e :: List.intercalate [0x2e]
      ((b :: rest).map fun b => decimal b.toNat))).find? _ = some 0x2e
    have hnone : (decimal a.toNat).find? (fun c => c = 0x2e ∨ c = 0x3a ∨ c = 0x25) = none := by
      rw [List.find?_eq_none]
      intro c hc
      exact forall_decimal (P := fun c => ¬ decide (c = 0x2e ∨ c = 0x3a ∨ c = 0x25) = true)
        (by decide) (by decide) _ c hc
    rw [List.find?_append, hnone]
    rfl

/-- **A printed address is read back**, whether it has four or sixteen bytes. -/
theorem parseIP_ipString (h : Reduced ip) : parseIP (ipString ip) = some (to16 ip) := by
  rcases h with hfour | ⟨hlen, hnone⟩
  · have hto4 : to4 ip = some ip := if_pos hfour
    rw [ipString, hto4]
    rw [parseIP, find_dotted hfour, parseIPv4_intercalate hfour, to16, if_pos hfour]
    rfl
  obtain ⟨hparse, hcolon, hmem⟩ := parseIPv6_ipv6String hlen
  rw [ipString, hnone]
  rw [parseIP, (find_of_colon hmem hcolon).1, hparse, to16, if_neg (by omega)]
  rfl

/-- The short form of an address. -/
def reduceIP (ip : List UInt8) : List UInt8 := (to4 ip).getD ip

theorem reduced_reduceIP (h : ip.length = 16) : Reduced (reduceIP ip) := by
  unfold reduceIP
  cases hto4 : to4 ip with
  | none => exact .inr ⟨h, hto4⟩
  | some quad =>
    left
    rw [to4, if_neg (by omega)] at hto4
    split at hto4
    · cases hto4
      rw [Option.getD_some, List.length_drop, h]
    · cases hto4

/-- The short form stands for the same address. -/
theorem reduceIP_to16 (h : Reduced ip) : reduceIP (to16 ip) = ip := by
  rcases h with hfour | ⟨hlen, hnone⟩
  · have hsixteen : (v4InV6Prefix ++ ip).length = 16 := by
      rw [List.length_append, hfour]
      rfl
    have htake : (v4InV6Prefix ++ ip).take 12 = v4InV6Prefix :=
      List.take_left' rfl
    rw [to16, if_pos hfour, reduceIP, to4, if_neg (by omega), if_pos ⟨hsixteen, htake⟩]
    exact List.drop_left' rfl
  rw [to16, if_neg (by omega), reduceIP, hnone]
  rfl

end SharkSocket.Lib
