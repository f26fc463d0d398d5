import SharkSocket.Lib.Ip

/-!
# Hosts and ports

What `splitHost` (`net.SplitHostPort`) makes of an address: `host:port` and `[host]:port`
give the host back, and an IP literal alone is refused, since it has no colon or more than
one (`splitHost_of_parseIP`).
-/

namespace SharkSocket.Lib

variable {c : UInt8} {s ip : List UInt8}

theorem idxOf_append_cons {front : List UInt8} (h : c ∉ front) (back : List UInt8) :
    (front ++ c :: back).idxOf? c = some front.length := by
  induction front with
  | nil => simp [List.idxOf?_cons]
  | cons b front ih =>
    rw [List.mem_cons, not_or] at h
    rw [List.cons_append, List.idxOf?_cons, ih h.2, if_neg (by simpa using Ne.symm h.1)]
    rfl

theorem lastIndexByte_append (front : List UInt8) {back : List UInt8} (h : c ∉ back) :
    lastIndexByte c (front ++ c :: back) = some front.length := by
  have hback : c ∉ back.reverse := by simpa using h
  have hidx := idxOf_append_cons hback front.reverse
  rw [lastIndexByte, List.reverse_append, List.reverse_cons, List.append_assoc,
    List.singleton_append, hidx, Option.map_some, List.length_append, List.length_cons,
    List.length_reverse]
  congr 1
  omega

/-- A byte of a text has a last place. -/
theorem exists_last {s : List UInt8} (h : c ∈ s) :
    ∃ front back, s = front ++ c :: back ∧ c ∉ back := by
  obtain ⟨back, front, hs, hback⟩ := List.eq_append_cons_of_mem (List.mem_reverse.mpr h)
  refine ⟨front.reverse, back.reverse, ?_, by simpa using hback⟩
  have hrev := congrArg List.reverse hs
  rwa [List.reverse_reverse, List.reverse_append, List.reverse_cons, List.append_assoc] at hrev

theorem lastIndexByte_of_notMem {s : List UInt8} (h : c ∉ s) : lastIndexByte c s = none := by
  rw [lastIndexByte, List.idxOf?_eq_none_iff.mpr (by simpa using h)]
  rfl

/-- A text with two colons that does not begin with a bracket has no port. -/
theorem splitHost_of_two_colons {s : List UInt8} (hhead : s.head? ≠ some 0x5b)
    (hcolons : 2 ≤ s.count 0x3a) : splitHost s = none := by
  have hmem : 0x3a ∈ s := List.count_pos_iff.mp (by omega)
  obtain ⟨front, back, rfl, hback⟩ := exists_last hmem
  have hfront : 0x3a ∈ front := by
    rw [List.count_append, List.count_cons_self, List.count_eq_zero_of_not_mem hback] at hcolons
    exact List.count_pos_iff.mp (by omega)
  rw [splitHost, lastIndexByte_append front hback]
  dsimp only
  rw [if_neg hhead, if_pos (by simpa using hfront)]

theorem splitHost_plain {host port : List UInt8} (hhost : 0x3a ∉ host) (hport : 0x3a ∉ port)
    (hopen : 0x5b ∉ host ++ port) (hclose : 0x5d ∉ host ++ port) :
    splitHost (host ++ 0x3a :: port) = some host := by
  rw [List.mem_append, not_or] at hopen hclose
  have hhead : (host ++ 0x3a :: port).head? ≠ some 0x5b := by
    cases host with
    | nil => simp
    | cons b host =>
      intro hb
      rw [List.cons_append, List.head?_cons, Option.some_inj] at hb
      exact hopen.1 (hb ▸ List.mem_cons_self)
  rw [splitHost, lastIndexByte_append host hport]
  dsimp only
  rw [if_neg hhead, List.take_left, if_neg (by simpa using hhost)]
  simp [hopen, hclose]

theorem splitHost_bracketed {host port : List UInt8} (hport : 0x3a ∉ port)
    (hopen : 0x5b ∉ host ++ port) (hclose : 0x5d ∉ host ++ port) :
    splitHost (0x5b :: (host ++ 0x5d :: 0x3a :: port)) = some host := by
  rw [List.mem_append, not_or] at hopen hclose
  have hlast : lastIndexByte 0x3a (0x5b :: (host ++ 0x5d :: 0x3a :: port)) =
      some (host.length + 2) := by
    have hsplit : 0x5b :: (host ++ 0x5d :: 0x3a :: port) =
        (0x5b :: (host ++ [0x5d])) ++ 0x3a :: port := by simp
    rw [hsplit, lastIndexByte_append _ hport, List.length_cons, List.length_append]
    rfl
  have hend : (0x5b :: (host ++ 0x5d :: 0x3a :: port)).idxOf? 0x5d = some (host.length + 1) := by
    rw [← List.cons_append, idxOf_append_cons (by simp [hclose.1]), List.length_cons]
  rw [splitHost, hlast]
  dsimp only
  rw [hend]
  dsimp only
  simp [hopen, hclose]

/-- The host in brackets goes up to the first bracket that closes. -/
theorem subset_of_splitHost {front rest host : List UInt8} (hclose : 0x5d ∉ front)
    (h : splitHost (0x5b :: (front ++ rest)) = some host) : front ⊆ host := by
  rw [splitHost] at h
  split at h
  · cases h
  rw [List.head?_cons, if_pos rfl] at h
  split at h
  · cases h
  rename_i close hidx
  by_cases hmem : 0x5d ∈ rest
  · obtain ⟨inner, behind, rfl, hinner⟩ := List.eq_append_cons_of_mem hmem
    have hsplit : 0x5b :: (front ++ (inner ++ 0x5d :: behind)) =
        (0x5b :: (front ++ inner)) ++ 0x5d :: behind := by simp
    rw [hsplit, idxOf_append_cons (by simp [hclose, hinner])] at hidx
    cases hidx
    rw [hsplit, List.take_left] at h
    split_ifs at h
    cases h
    exact List.subset_append_left front inner
  rw [List.idxOf?_eq_none_iff.mpr (by simp [hclose, hmem])] at hidx
  cases hidx

/-! ### IP literals -/

/-- The groups of an IPv6 address without `::` are separated by colons. -/
theorem colons_of_ipv6Loop : ∀ (fuel : Nat) {s ip : List UInt8} {scan : Ipv6Scan},
    ipv6Loop fuel s ip none = some scan → scan.left = [] → 2 ≤ s.count 0x3a ∨
      (scan.ellipsis = none ∧ scan.ip.length ≤ ip.length + 2 * s.count 0x3a + 4) := by
  intro fuel
  induction fuel with
  | zero =>
    intro s ip scan h _
    cases h
    exact .inr ⟨rfl, by dsimp only; omega⟩
  | succ fuel ih =>
    intro s ip scan h hleft
    have hcount : (s.dropWhile isHex).count 0x3a ≤ s.count 0x3a :=
      (List.dropWhile_sublist isHex).count_le 0x3a
    have hgroup : ∀ digits, (ip ++ hexGroup digits).length = ip.length + 2 := by
      intro digits
      rw [List.length_append]
      rfl
    rw [ipv6Loop] at h
    split at h
    · cases h
    split at h
    · cases h
      exact .inr ⟨rfl, by rw [hgroup]; omega⟩
    · split at h
      · cases h
      split at h
      · cases h
      split at h
      · cases h
      rename_i quad hquad
      cases h
      refine .inr ⟨rfl, ?_⟩
      rw [List.length_append, length_ipv4Loop hquad]
      omega
    · rename_i rest hrest
      rw [hrest, List.count_cons_self, List.count_cons_self] at hcount
      exact .inl (by omega)
    · rename_i c rest _ hrest
      rw [hrest, List.count_cons_self] at hcount
      rcases ih h hleft with htwo | ⟨hnone, hlen⟩
      · exact .inl (by omega)
      rw [hgroup] at hlen
      exact .inr ⟨hnone, by omega⟩
    · cases h

theorem colons_of_parseIPv6 (h : parseIPv6 s = some ip) : 2 ≤ s.count 0x3a := by
  unfold parseIPv6 at h
  split at h
  · cases h
  split at h
  · decide
  · rw [List.count_cons_self, List.count_cons_self]
    omega
  obtain ⟨scan, hloop, hscan⟩ := Option.bind_eq_some_iff.mp h
  rcases colons_of_ipv6Loop 8 hloop (left_of_ipv6Expand hscan) with htwo | ⟨hnone, hlen⟩
  · exact htwo
  -- sixteen bytes take more than one group
  unfold ipv6Expand at hscan
  rw [hnone] at hscan
  dsimp only at hscan
  split at hscan
  · cases hscan
  split at hscan
  · rename_i hsixteen
    simp only [List.length_nil] at hlen
    omega
  · cases hscan

theorem colons_of_parseIP (h : parseIP s = some ip) (hcolon : 0x3a ∈ s) : 2 ≤ s.count 0x3a := by
  unfold parseIP at h
  split at h
  · obtain ⟨quad, hquad, -⟩ := Option.map_eq_some_iff.mp h
    rcases forall_of_ipv4Loop hquad 0x3a hcolon with hdigit | hdot
    · exact absurd hdigit (by decide)
    · exact absurd hdot (by decide)
  · exact colons_of_parseIPv6 h
  · cases h

/-- **An IP literal is not taken for a host with a port.** -/
theorem splitHost_of_parseIP (h : parseIP s = some ip) : splitHost s = none := by
  have hopen : 0x5b ∉ s := notMem_of_parseIP h (by decide)
  by_cases hcolon : 0x3a ∈ s
  · exact splitHost_of_two_colons (fun hhead => hopen (List.mem_of_mem_head? hhead))
      (colons_of_parseIP h hcolon)
  · rw [splitHost, lastIndexByte_of_notMem hcolon]

end SharkSocket.Lib
