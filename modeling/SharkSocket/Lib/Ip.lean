import Mathlib
import SharkSocket.Lib.Text

/-!
# IP addresses as text

`parseIP` is Go's `net.ParseIP`: a dotted quad or the text form of an IPv6
address, always as sixteen bytes.  `to4` is `IP.To4`, `ipString` prints an address,
and `parseCIDR` reads a network.
-/

namespace SharkSocket.Lib

/-! ### Dotted quads -/

/-- The loop of `parseIPv4Fields`: the value and the number of digits of the
current field, and the fields before it. -/
def ipv4Loop : List UInt8 → Nat → Nat → List UInt8 → Option (List UInt8)
  | [], val, _, octets => if octets.length = 3 then some (octets ++ [UInt8.ofNat val]) else none
  | c :: rest, val, digLen, octets =>
    if isDigit c then
      if digLen = 1 ∧ val = 0 then none
      else if 255 < val * 10 + (c.toNat - 48) then none
      else ipv4Loop rest (val * 10 + (c.toNat - 48)) (digLen + 1) octets
    else if c = 0x2e then
      -- a field has at least one digit, the last one too
      if digLen = 0 ∨ rest = [] then none
      else if octets.length = 3 then none
      else ipv4Loop rest 0 0 (octets ++ [UInt8.ofNat val])
    else none

def parseIPv4 (s : List UInt8) : Option (List UInt8) := ipv4Loop s 0 0 []

theorem length_ipv4Loop {s : List UInt8} {val digLen : Nat} {octets ip : List UInt8}
    (h : ipv4Loop s val digLen octets = some ip) : ip.length = 4 := by
  induction s generalizing val digLen octets with
  | nil =>
    rw [ipv4Loop] at h
    split at h
    · rename_i hlen
      cases h
      rw [List.length_append, hlen, List.length_singleton]
    · cases h
  | cons c rest ih =>
    rw [ipv4Loop] at h
    split_ifs at h
    · exact ih h
    · exact ih h

/-- A dotted quad is made of digits and dots. -/
theorem forall_of_ipv4Loop {s : List UInt8} {val digLen : Nat} {octets ip : List UInt8}
    (h : ipv4Loop s val digLen octets = some ip) : ∀ c ∈ s, isDigit c = true ∨ c = 0x2e := by
  induction s generalizing val digLen octets with
  | nil =>
    intro c hc
    cases hc
  | cons b rest ih =>
    intro c hc
    rw [ipv4Loop] at h
    split_ifs at h with hdigit _ _ hdot
    · rcases List.mem_cons.mp hc with rfl | hc
      · exact .inl hdigit
      · exact ih h c hc
    · rcases List.mem_cons.mp hc with rfl | hc
      · exact .inr hdot
      · exact ih h c hc

/-! ### IPv6 -/

def isHex (b : UInt8) : Bool :=
  isDigit b ∨ (0x61 ≤ b ∧ b ≤ 0x66) ∨ (0x41 ≤ b ∧ b ≤ 0x46)

def hexDigitValue (b : UInt8) : Nat :=
  if isDigit b then b.toNat - 0x30
  else if 0x61 ≤ b then b.toNat - 0x61 + 10
  else b.toNat - 0x41 + 10

/-- The two bytes of a group of hexadecimal digits. -/
def hexGroup (digits : List UInt8) : List UInt8 :=
  let acc := digits.foldl (fun n b => n * 16 + hexDigitValue b) 0
  [UInt8.ofNat (acc / 256), UInt8.ofNat acc]

/-- What the loop of `parseIPv6` ends with: the text left over, the bytes, and
where `::` stood. -/
structure Ipv6Scan where
  left : List UInt8
  ip : List UInt8
  ellipsis : Option Nat

/-- One group per turn, so eight turns fill the address. -/
def ipv6Loop : Nat → List UInt8 → List UInt8 → Option Nat → Option Ipv6Scan
  | 0, s, ip, ellipsis => some ⟨s, ip, ellipsis⟩
  | fuel + 1, s, ip, ellipsis =>
    let digits := s.takeWhile isHex
    if digits.length = 0 ∨ 4 < digits.length then none
    else
      match s.dropWhile isHex with
      | [] => some ⟨[], ip ++ hexGroup digits, ellipsis⟩
      | 0x2e :: _ =>
        -- a dotted quad in the place of the last two groups
        if ellipsis = none ∧ ip.length ≠ 12 then none
        else if 16 < ip.length + 4 then none
        else
          match parseIPv4 s with
          | none => none
          | some quad => some ⟨[], ip ++ quad, ellipsis⟩
      | 0x3a :: 0x3a :: rest =>
        if ellipsis ≠ none then none
        else if rest = [] then some ⟨[], ip ++ hexGroup digits, some (ip.length + 2)⟩
        else ipv6Loop fuel rest (ip ++ hexGroup digits) (some (ip.length + 2))
      | 0x3a :: c :: rest => ipv6Loop fuel (c :: rest) (ip ++ hexGroup digits) ellipsis
      | _ => none

/-- The end of `parseIPv6`: `::` stands for the groups that are missing. -/
def ipv6Expand (scan : Ipv6Scan) : Option (List UInt8) :=
  if scan.left ≠ [] then none
  else
    match scan.ellipsis with
    | none => if scan.ip.length = 16 then some scan.ip else none
    | some pos =>
      if scan.ip.length < 16 then
        some (scan.ip.take pos ++ List.replicate (16 - scan.ip.length) 0 ++ scan.ip.drop pos)
      else none

/-- `parseIPv6`, with `net.ParseIP`'s refusal of a zone. -/
def parseIPv6 (s : List UInt8) : Option (List UInt8) :=
  if 0x25 ∈ s then none
  else
    match s with
    | [0x3a, 0x3a] => some (List.replicate 16 0)
    | 0x3a :: 0x3a :: rest => (ipv6Loop 8 rest [] (some 0)).bind ipv6Expand
    | _ => (ipv6Loop 8 s [] none).bind ipv6Expand

/-- The bytes that the text of an address can have. -/
def IpByte (c : UInt8) : Prop := isHex c = true ∨ c = 0x2e ∨ c = 0x3a

instance (c : UInt8) : Decidable (IpByte c) := inferInstanceAs (Decidable (_ ∨ _))

variable {s ip : List UInt8}

theorem ipByte_of_parseIPv4 (h : parseIPv4 s = some ip) : ∀ c ∈ s, IpByte c := by
  intro c hc
  rcases forall_of_ipv4Loop h c hc with hdigit | hdot
  · exact .inl (by rw [isHex, hdigit]; simp)
  · exact .inr (.inl hdot)

/-- What the loop has taken are groups and their separators. -/
theorem ipByte_of_ipv6Loop {fuel : Nat} {ellipsis : Option Nat} {scan : Ipv6Scan}
    (h : ipv6Loop fuel s ip ellipsis = some scan) (hleft : scan.left = []) : ∀ c ∈ s, IpByte c := by
  induction fuel generalizing s ip ellipsis with
  | zero =>
    cases h
    intro c hc
    rw [show s = [] from hleft] at hc
    cases hc
  | succ fuel ih =>
    have hdigits : ∀ c ∈ s.takeWhile isHex, IpByte c := fun c hc => .inl (List.mem_takeWhile_imp hc)
    -- what follows the digits of the group decides
    have hcut : (∀ c ∈ s.dropWhile isHex, IpByte c) → ∀ c ∈ s, IpByte c := by
      intro hrest c hc
      rw [← List.takeWhile_append_dropWhile (l := s)] at hc
      rcases List.mem_append.mp hc with hc | hc
      · exact hdigits c hc
      · exact hrest c hc
    have hcolon : IpByte 0x3a := .inr (.inr rfl)
    rw [ipv6Loop] at h
    split at h
    · cases h
    split at h
    · rename_i hrest
      apply hcut
      rw [hrest]
      intro c hc
      cases hc
    · split at h
      · cases h
      split at h
      · cases h
      split at h
      · cases h
      rename_i quad hquad
      exact ipByte_of_parseIPv4 hquad
    · rename_i rest hrest
      apply hcut
      rw [hrest]
      have hmore : (∀ c ∈ rest, IpByte c) → ∀ c ∈ 0x3a :: 0x3a :: rest, IpByte c :=
        fun hall => List.forall_mem_cons.mpr ⟨hcolon, List.forall_mem_cons.mpr ⟨hcolon, hall⟩⟩
      split at h
      · cases h
      split at h
      · rename_i hnil
        exact hmore (by rw [hnil]; intro c hc; cases hc)
      · exact hmore (ih h)
    · rename_i first rest _ hrest
      apply hcut
      rw [hrest]
      exact List.forall_mem_cons.mpr ⟨hcolon, ih h⟩
    · cases h

theorem left_of_ipv6Expand {scan : Ipv6Scan} {ip : List UInt8} (h : ipv6Expand scan = some ip) :
    scan.left = [] := by
  unfold ipv6Expand at h
  split at h
  · cases h
  rename_i hleft
  exact not_not.mp hleft

theorem length_ipv6Expand {scan : Ipv6Scan} {ip : List UInt8} (h : ipv6Expand scan = some ip) :
    ip.length = 16 := by
  unfold ipv6Expand at h
  split at h
  · cases h
  split at h
  · split_ifs at h with hlen
    cases h
    exact hlen
  split_ifs at h with hlen
  cases h
  simp only [List.length_append, List.length_take, List.length_replicate, List.length_drop]
  omega

theorem length_parseIPv6 (h : parseIPv6 s = some ip) : ip.length = 16 := by
  have hbind : ∀ {o : Option Ipv6Scan}, o.bind ipv6Expand = some ip → ip.length = 16 := by
    intro o ho
    obtain ⟨scan, -, hscan⟩ := Option.bind_eq_some_iff.mp ho
    exact length_ipv6Expand hscan
  unfold parseIPv6 at h
  split at h
  · cases h
  split at h
  · cases h
    rfl
  · exact hbind h
  · exact hbind h

theorem ipByte_of_parseIPv6 (h : parseIPv6 s = some ip) : ∀ c ∈ s, IpByte c := by
  have hbind : ∀ {t : List UInt8} {ellipsis : Option Nat},
      (ipv6Loop 8 t [] ellipsis).bind ipv6Expand = some ip → ∀ c ∈ t, IpByte c := by
    intro t ellipsis ht
    obtain ⟨scan, hloop, hscan⟩ := Option.bind_eq_some_iff.mp ht
    exact ipByte_of_ipv6Loop hloop (left_of_ipv6Expand hscan)
  have hcolon : IpByte 0x3a := .inr (.inr rfl)
  unfold parseIPv6 at h
  split at h
  · cases h
  split at h
  · intro c hc
    simp only [List.mem_cons, List.not_mem_nil, or_false, or_self] at hc
    exact hc ▸ hcolon
  · exact List.forall_mem_cons.mpr ⟨hcolon, List.forall_mem_cons.mpr ⟨hcolon, hbind h⟩⟩
  · exact hbind h

/-! ### Both -/

/-- The bytes that mark a mapped IPv4 address. -/
def v4InV6Prefix : List UInt8 := List.replicate 10 0 ++ [0xff, 0xff]

/-- `net.ParseIP`: the first byte that is a dot, a colon or a percent sign decides. -/
def parseIP (s : List UInt8) : Option (List UInt8) :=
  match s.find? fun c => c = 0x2e ∨ c = 0x3a ∨ c = 0x25 with
  | some 0x2e => (parseIPv4 s).map (v4InV6Prefix ++ ·)
  | some 0x3a => parseIPv6 s
  | _ => none

theorem length_parseIP (h : parseIP s = some ip) : ip.length = 16 := by
  unfold parseIP at h
  split at h
  · obtain ⟨quad, hquad, rfl⟩ := Option.map_eq_some_iff.mp h
    rw [List.length_append, length_ipv4Loop hquad]
    rfl
  · exact length_parseIPv6 h
  · cases h

theorem ipByte_of_parseIP (h : parseIP s = some ip) : ∀ c ∈ s, IpByte c := by
  unfold parseIP at h
  split at h
  · obtain ⟨quad, hquad, -⟩ := Option.map_eq_some_iff.mp h
    exact ipByte_of_parseIPv4 hquad
  · exact ipByte_of_parseIPv6 h
  · cases h

/-- An IP literal has no other bytes. -/
theorem notMem_of_parseIP {c : UInt8} (h : parseIP s = some ip) (hc : ¬ IpByte c) : c ∉ s :=
  fun hmem => hc (ipByte_of_parseIP h c hmem)

/-- `IP.To4`. -/
def to4 (ip : List UInt8) : Option (List UInt8) :=
  if ip.length = 4 then some ip
  else if ip.length = 16 ∧ ip.take 12 = v4InV6Prefix then some (ip.drop 12)
  else none

/-- An address without a colon is a dotted quad. -/
theorem isSome_to4_of_parseIP (h : parseIP s = some ip) (hcolon : 0x3a ∉ s) :
    (to4 ip).isSome = true := by
  unfold parseIP at h
  split at h
  · obtain ⟨quad, hquad, rfl⟩ := Option.map_eq_some_iff.mp h
    have hfour : quad.length = 4 := length_ipv4Loop hquad
    have hlen : (v4InV6Prefix ++ quad).length = 16 := by rw [List.length_append, hfour]; rfl
    have htake : (v4InV6Prefix ++ quad).take 12 = v4InV6Prefix :=
      List.take_left' rfl
    rw [to4, if_neg (by omega), if_pos ⟨hlen, htake⟩]
    rfl
  · rename_i hfirst
    exact absurd (List.mem_of_find?_eq_some hfirst) hcolon
  · cases h

/-! ### Printing -/

/-- A group of an IPv6 address without leading zeros. -/
def hexText (n : Nat) : List UInt8 :=
  (if 0x1000 ≤ n then [hexDigit (n / 0x1000)] else []) ++
    (if 0x100 ≤ n then [hexDigit (n / 0x100 % 16)] else []) ++
    (if 0x10 ≤ n then [hexDigit (n / 0x10 % 16)] else []) ++ [hexDigit (n % 16)]

def groupsOf : List UInt8 → List Nat
  | hi :: lo :: rest => (hi.toNat * 256 + lo.toNat) :: groupsOf rest
  | _ => []

/-- Start and length of the first longest run of two or more zero groups. -/
def longestZeros (groups : List Nat) : Option (Nat × Nat) :=
  (List.range groups.length).foldl
    (fun best i =>
      let run := ((groups.drop i).takeWhile (· = 0)).length
      if 2 ≤ run ∧ best.elim 0 Prod.snd < run then some (i, run) else best) none

def ipv6String (ip : List UInt8) : List UInt8 :=
  let groups := groupsOf ip
  match longestZeros groups with
  | none => List.intercalate [0x3a] (groups.map hexText)
  | some (start, run) =>
    List.intercalate [0x3a] ((groups.take start).map hexText) ++ [0x3a, 0x3a] ++
      List.intercalate [0x3a] ((groups.drop (start + run)).map hexText)

/-- `IP.String` of four or sixteen bytes. -/
def ipString (ip : List UInt8) : List UInt8 :=
  match to4 ip with
  | some quad => List.intercalate [0x2e] (quad.map fun b => decimal b.toNat)
  | none => ipv6String ip

/-! ### Networks -/

structure IPNet where
  ip : List UInt8
  mask : List UInt8
  deriving DecidableEq, Repr

/-- `net.CIDRMask`: `ones` bits in `size` bytes. -/
def cidrMask (ones size : Nat) : List UInt8 :=
  (List.range size).map fun i =>
    let set := min 8 (ones - 8 * i)
    UInt8.ofNat (256 - 2 ^ (8 - set))

/-- `net.ParseCIDR`, the network only.  The text of the address decides how long the
mask is, and a mapped IPv4 address is written with sixteen bytes. -/
def parseCIDR (s : List UInt8) : Option IPNet :=
  match s.idxOf? 0x2f with
  | none => none
  | some i =>
    let addr := s.take i
    match parseIP addr, decimalValue (s.drop (i + 1)) with
    | some ip, some ones =>
      let dotted := addr.find? (fun c => c = 0x2e ∨ c = 0x3a ∨ c = 0x25) = some 0x2e
      let size := if dotted then 4 else 16
      if 8 * size < ones then none
      else
        let mask := cidrMask ones size
        some ⟨List.zipWith (· &&& ·) (if dotted then ip.drop 12 else ip) mask, mask⟩
    | _, _ => none

end SharkSocket.Lib
