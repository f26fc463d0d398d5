import SharkSocket.Lib.Text
import SharkSocket.Tcp.BufferedReads

/-!
# Frames written and read back

`sentBytes` is what a list of `WriteFrame` calls puts on the connection.  A reader may get
it in any pieces, with a buffer or without.

* `lengthPrefix_round_trip`: length-prefixed payloads come back as they were written,
  and then the stream ends.  The writer compares the length with the limit as an
  `int`, the reader as a `uint32`; up to `2^32-1` the two are one limit.
* `lines_on_wire`: lines come back split at the delimiters that a payload contains,
  since the writer does not look for them (`line_round_trip_iff`).
-/

namespace SharkSocket.Tcp

open SharkSocket.Lib

/-- The bytes of the `Write` calls that a list of `WriteFrame` calls makes. -/
def sentBytes (writeFrame : WriteFrame) : List Bytes → Except FrameErr Bytes
  | [] => .ok []
  | payload :: payloads =>
    match writeFrame payload with
    | .error e => .error e
    | .ok writes =>
      match sentBytes writeFrame payloads with
      | .error e => .error e
      | .ok rest => .ok (writes.flatten ++ rest)

variable {payloads : List Bytes} {bytes : Bytes}

/-- What is on the wire if a framer writes every payload it accepts in one form. -/
theorem sentBytes_ok {writeFrame : WriteFrame} {accepts : Bytes → Prop} {form : Bytes → Bytes}
    (hform : ∀ payload writes, writeFrame payload = .ok writes →
      accepts payload ∧ writes.flatten = form payload)
    (h : sentBytes writeFrame payloads = .ok bytes) :
    (∀ payload ∈ payloads, accepts payload) ∧ bytes = payloads.flatMap form := by
  induction payloads generalizing bytes with
  | nil =>
    cases h
    exact ⟨fun payload hmem => (List.not_mem_nil hmem).elim, rfl⟩
  | cons payload payloads ih =>
    rw [sentBytes] at h
    cases hwrite : writeFrame payload with
    | error e =>
      rw [hwrite] at h
      cases h
    | ok writes =>
      cases hrest : sentBytes writeFrame payloads with
      | error e =>
        rw [hwrite, hrest] at h
        cases h
      | ok rest =>
        rw [hwrite, hrest] at h
        cases h
        obtain ⟨hacc, hwrites⟩ := hform payload writes hwrite
        obtain ⟨hall, rfl⟩ := ih hrest
        refine ⟨?_, ?_⟩
        · intro p hp
          rcases List.mem_cons.mp hp with rfl | hp
          · exact hacc
          · exact hall p hp
        · rw [hwrites, List.flatMap_cons]

/-! ### Length-prefixed frames -/

namespace LengthPrefixFramer

/-- A payload behind its length. -/
def frame (payload : Bytes) : Bytes := putUInt32 (UInt32.ofNat payload.length) ++ payload

variable {f : LengthPrefixFramer} {payload : Bytes}

theorem maxBytes_of_pos (h : 1 ≤ f.maxFrameBytes) : (f.maxBytes : Int) = f.maxFrameBytes := by
  have hmax : f.maxBytes = f.maxFrameBytes.toNat := if_pos (by omega)
  omega

theorem writeFrame_eq_ok {writes : List Bytes} (h : f.writeFrame payload = .ok writes) :
    payload.length ≤ f.maxBytes ∧ writes.flatten = frame payload := by
  unfold writeFrame at h
  split at h
  · cases h
  rename_i hle
  cases h
  exact ⟨Nat.le_of_not_lt hle, by simp [frame]⟩

theorem exists_writeFrame_iff :
    (∃ writes, f.writeFrame payload = .ok writes) ↔ payload.length ≤ f.maxBytes := by
  constructor
  · rintro ⟨writes, h⟩
    exact (writeFrame_eq_ok h).1
  · intro hle
    exact ⟨_, if_neg (Nat.not_lt.mpr hle)⟩

/-- The reader's limit, in `uint32`, lets pass what the writer's does. -/
theorem checkHeader_frame (hmax : f.maxBytes < 2 ^ 32) (hlen : payload.length ≤ f.maxBytes) :
    f.checkHeader (putUInt32 (UInt32.ofNat payload.length)) = .ok payload.length := by
  have hraw : (UInt32.ofNat payload.length).toNat = payload.length :=
    UInt32.toNat_ofNat_of_lt' (lt_of_le_of_lt hlen hmax)
  have hlimit : (UInt32.ofNat f.maxBytes).toNat = f.maxBytes := UInt32.toNat_ofNat_of_lt' hmax
  have hfits : ¬ UInt32.ofNat f.maxBytes < UInt32.ofNat payload.length := by
    rw [UInt32.lt_iff_toNat_lt, hraw, hlimit]
    exact Nat.not_lt.mpr hlen
  unfold checkHeader
  rw [beUInt32_putUInt32]
  rw [if_neg hfits, hraw]

theorem fullOf_append (l rest : Bytes) : Reader.fullOf l.length (l ++ rest) = .ok l := by
  have hle : l.length ≤ (l ++ rest).length := by simp
  rw [Reader.fullOf, if_pos hle, List.take_left]

theorem frameOf_frame (hmax : f.maxBytes < 2 ^ 32) (hlen : payload.length ≤ f.maxBytes)
    (rest : Bytes) : f.frameOf (frame payload ++ rest) = (.ok payload, rest) := by
  have hheader : (putUInt32 (UInt32.ofNat payload.length)).length = 4 := rfl
  have hfull := fullOf_append (putUInt32 (UInt32.ofNat payload.length)) (payload ++ rest)
  have hdrop : (putUInt32 (UInt32.ofNat payload.length) ++ (payload ++ rest)).drop 4 =
      payload ++ rest := by
    rw [← hheader, List.drop_left]
  rw [hheader] at hfull
  unfold frameOf frame
  rw [List.append_assoc, hfull]
  dsimp only
  rw [checkHeader_frame hmax hlen]
  dsimp only
  rw [hdrop, fullOf_append, List.drop_left]
  rfl

end LengthPrefixFramer

open LengthPrefixFramer in
/-- **Length-prefixed frames are read back as they were written**, in any pieces, with a
buffer of any size and without one, and after the last of them the stream ends.  The
writer takes exactly the payloads within the limit. -/
theorem lengthPrefix_round_trip (f : LengthPrefixFramer) (hlo : 1 ≤ f.maxFrameBytes)
    (hhi : f.maxFrameBytes ≤ 2 ^ 32 - 1) :
    (∀ payload : Bytes, (∃ writes, f.writeFrame payload = .ok writes) ↔
      (payload.length : Int) ≤ f.maxFrameBytes) ∧
    ∀ (payloads : List Bytes) (bytes : Bytes), sentBytes f.writeFrame payloads = .ok bytes →
      ∀ (s : Source UInt8), s.pending = bytes → ∀ fuel, payloads.length < fuel →
        untilError (f.readFrame Source.reader) fuel s = (payloads, some (.read .eof)) ∧
        ∀ size, untilError f.readFrameBuffered fuel (.new size s) =
          (payloads, some (.read .eof)) := by
  have hmax := maxBytes_of_pos hlo
  have hlt : f.maxBytes < 2 ^ 32 := by omega
  constructor
  · intro payload
    rw [exists_writeFrame_iff]
    omega
  · intro payloads bytes hwire s hs fuel hfuel
    obtain ⟨hfit, rfl⟩ := sentBytes_ok (fun _ _ => writeFrame_eq_ok) hwire
    have hread : untilError f.frameOf fuel (payloads.flatMap frame) =
        (payloads, some (.read .eof)) :=
      untilError_flatMap rfl payloads
        (fun payload hp rest => frameOf_frame hlt (hfit payload hp) rest) fuel hfuel
    have hplain : untilError (f.readFrame Source.reader) fuel s =
        (payloads, some (.read .eof)) := by
      rw [f.untilError_readFrame Source.reader fuel s]
      show untilError f.frameOf fuel s.pending = _
      rw [hs, hread]
    refine ⟨hplain, ?_⟩
    intro size
    rw [f.untilError_new size s fuel, hplain]

/-- Two payloads, one of them empty, in pieces that cut the headers. -/
def cutFrames : Source UInt8 where
  chunks :=
    [⟨[0, 0], List.cons_ne_nil _ _⟩, ⟨[0, 2, 0x68, 0x69, 0], List.cons_ne_nil _ _⟩,
      ⟨[0, 0, 0], List.cons_ne_nil _ _⟩]

theorem lengthPrefix_round_trip_cutFrames :
    sentBytes (⟨2⟩ : LengthPrefixFramer).writeFrame [[0x68, 0x69], []] = .ok cutFrames.pending ∧
      untilError ((⟨2⟩ : LengthPrefixFramer).readFrame Source.reader) 3 cutFrames =
        ([[0x68, 0x69], []], some (.read .eof)) ∧
      ∀ size, untilError (⟨2⟩ : LengthPrefixFramer).readFrameBuffered 3 (.new size cutFrames) =
        ([[0x68, 0x69], []], some (.read .eof)) := by
  have hwire : sentBytes (⟨2⟩ : LengthPrefixFramer).writeFrame [[0x68, 0x69], []] =
      .ok cutFrames.pending := by decide +kernel
  exact ⟨hwire, (lengthPrefix_round_trip ⟨2⟩ (by decide) (by decide)).2 _ _ hwire cutFrames rfl 3
    (by decide)⟩

/-! ### Lines -/

namespace LineFramer

/-- A payload before its delimiter. -/
def line (d : UInt8) (payload : Bytes) : Bytes := payload ++ [d]

variable {f : LineFramer}

theorem writeFrame_eq_ok {payload : Bytes} {writes : List Bytes}
    (h : f.writeFrame payload = .ok writes) :
    payload.length < f.maxBytes ∧ writes.flatten = line f.delimiter payload := by
  unfold writeFrame at h
  split at h
  · cases h
  rename_i hle
  cases h
  exact ⟨Nat.lt_of_succ_le (Nat.le_of_not_lt hle), by simp [line]⟩

/-- A payload and its delimiter are the lines of its parts. -/
theorem flatMap_splitOn (d : UInt8) (payload : Bytes) :
    (List.splitOn d payload).flatMap (line d) = line d payload := by
  induction payload with
  | nil => rfl
  | cons b rest ih =>
    rw [List.splitOn_cons_eq_if_modifyHead]
    split
    · rename_i hb
      obtain rfl := beq_iff_eq.mp hb
      rw [List.flatMap_cons, ih]
      rfl
    cases hsplit : List.splitOn d rest with
    | nil =>
      rw [hsplit] at ih
      exact absurd ih (by simp [line])
    | cons part parts =>
      rw [hsplit] at ih
      show line d (b :: part) ++ parts.flatMap (line d) = b :: (rest ++ [d])
      rw [show rest ++ [d] = line d rest from rfl, ← ih]
      rfl

/-- No part contains the delimiter or is longer than the payload. -/
theorem of_mem_splitOn {d : UInt8} {payload part : Bytes} (h : part ∈ List.splitOn d payload) :
    d ∉ part ∧ part.length ≤ payload.length := by
  induction payload generalizing part with
  | nil =>
    obtain rfl := List.mem_singleton.mp h
    exact ⟨List.not_mem_nil, le_rfl⟩
  | cons b rest ih =>
    rw [List.splitOn_cons_eq_if_modifyHead] at h
    split at h
    · rcases List.mem_cons.mp h with rfl | h
      · exact ⟨List.not_mem_nil, Nat.zero_le _⟩
      · exact ⟨(ih h).1, (ih h).2.trans (Nat.le_succ _)⟩
    rename_i hb
    cases hsplit : List.splitOn d rest with
    | nil => exact absurd hsplit (List.splitOn_ne_nil d rest)
    | cons first parts =>
      rw [hsplit] at h ih
      rcases List.mem_cons.mp h with rfl | h
      · obtain ⟨hfree, hlen⟩ := ih List.mem_cons_self
        refine ⟨?_, Nat.succ_le_succ hlen⟩
        intro hmem
        rcases List.mem_cons.mp hmem with rfl | hmem
        · exact hb (beq_self_eq_true d)
        · exact hfree hmem
      obtain ⟨hfree, hlen⟩ := ih (List.mem_cons_of_mem _ h)
      exact ⟨hfree, hlen.trans (Nat.le_succ _)⟩

/-- The parts of all payloads are the payloads iff none contains the delimiter. -/
theorem flatMap_splitOn_eq_self_iff {d : UInt8} :
    payloads.flatMap (List.splitOn d) = payloads ↔ ∀ payload ∈ payloads, d ∉ payload := by
  constructor
  · intro h payload hmem
    rw [← h] at hmem
    obtain ⟨whole, -, hpart⟩ := List.mem_flatMap.mp hmem
    exact (of_mem_splitOn hpart).1
  · intro h
    induction payloads with
    | nil => rfl
    | cons payload payloads ih =>
      rw [List.flatMap_cons, List.splitOn_eq_singleton (h payload List.mem_cons_self),
        ih (fun p hp => h p (List.mem_cons_of_mem payload hp))]
      rfl

/-- What is on the wire, as lines without a delimiter inside. -/
theorem sentBytes_eq_lines (h : sentBytes f.writeFrame payloads = .ok bytes) :
    bytes = (payloads.flatMap (List.splitOn f.delimiter)).flatMap (line f.delimiter) ∧
      ∀ part ∈ payloads.flatMap (List.splitOn f.delimiter),
        f.delimiter ∉ part ∧ part.length < f.maxBytes := by
  obtain ⟨hfit, rfl⟩ := sentBytes_ok (fun _ _ => writeFrame_eq_ok) h
  constructor
  · rw [List.flatMap_assoc]
    simp only [flatMap_splitOn]
  · intro part hpart
    obtain ⟨payload, hmem, hpart⟩ := List.mem_flatMap.mp hpart
    obtain ⟨hfree, hlen⟩ := of_mem_splitOn hpart
    exact ⟨hfree, lt_of_le_of_lt hlen (hfit payload hmem)⟩

/-- Each line takes its delimiter. -/
theorem length_le_flatMap_line (d : UInt8) (parts : List Bytes) :
    parts.length ≤ (parts.flatMap (line d)).length := by
  induction parts with
  | nil => exact le_rfl
  | cons part parts ih =>
    rw [List.flatMap_cons, List.length_append, line, List.length_append]
    show parts.length + 1 ≤ part.length + 1 + _
    omega

theorem eq_of_kinds {x : List Bytes × Option FrameErr} {items : List Bytes}
    (h : kinds x = (items, some (.read .eof))) : x = (items, some (.read .eof)) := by
  obtain ⟨frames, err⟩ := x
  cases err with
  | none => cases h
  | some e =>
    cases e with
    | read e =>
      cases h
      rfl
    | frameTooLarge len max | sizeNotPositive | payloadSize len size => cases h

/-- **What the readers make of the lines on the wire**: a payload comes back as its
parts between the delimiters. -/
theorem lines_on_wire (hwire : sentBytes f.writeFrame payloads = .ok bytes) {s : Source UInt8}
    (hs : s.pending = bytes) (size : Nat) {fuel : Nat} (hfuel : bytes.length < fuel) :
    untilError (f.readFrame Source.reader) fuel s =
        (payloads.flatMap (List.splitOn f.delimiter), some (.read .eof)) ∧
      untilError f.readFrameBuffered fuel (.new size s) =
        (payloads.flatMap (List.splitOn f.delimiter), some (.read .eof)) := by
  obtain ⟨rfl, hparts⟩ := sentBytes_eq_lines hwire
  have hmany := lt_of_le_of_lt (length_le_flatMap_line f.delimiter _) hfuel
  have happend : ∀ part rest : Bytes,
      line f.delimiter part ++ rest = part ++ f.delimiter :: rest := by
    intro part rest
    rw [line, List.append_assoc]
    rfl
  constructor
  · apply eq_of_kinds
    rw [f.kinds_readFrame Source.reader fuel s]
    show untilError _ fuel s.pending = _
    rw [hs]
    apply untilError_flatMap rfl _ _ fuel hmany
    intro part hpart rest
    obtain ⟨hfree, hlen⟩ := hparts part hpart
    rw [happend, (line_cases f.maxBytes 1 hfree rest).1, if_pos hlen]
  · apply eq_of_kinds
    rw [f.kinds_readFrameBuffered fuel (.new size s), BufReader.pending_new, hs]
    refine untilError_flatMap ?_ _ ?_ fuel hmany
    · show Except.error _ = _
      simp
    · intro part hpart rest
      obtain ⟨hfree, hlen⟩ := hparts part hpart
      rw [happend, (line_cases f.maxBytes _ hfree rest).2, if_pos hlen.le]

end LineFramer

open LineFramer in
/-- **When lines are read back as they were written**: exactly if no payload contains the
delimiter, with a buffer of any size and without one, in any pieces. -/
theorem line_round_trip_iff (f : LineFramer) {payloads : List Bytes} {bytes : Bytes}
    (hwire : sentBytes f.writeFrame payloads = .ok bytes) {s : Source UInt8} (hs : s.pending = bytes)
    (size : Nat) {fuel : Nat} (hfuel : bytes.length < fuel) :
    (untilError (f.readFrame Source.reader) fuel s = (payloads, some (.read .eof)) ↔
        ∀ payload ∈ payloads, f.delimiter ∉ payload) ∧
      (untilError f.readFrameBuffered fuel (.new size s) = (payloads, some (.read .eof)) ↔
        ∀ payload ∈ payloads, f.delimiter ∉ payload) := by
  obtain ⟨hplain, hbuffered⟩ := lines_on_wire hwire hs size hfuel
  have hparts : (payloads.flatMap (List.splitOn f.delimiter), some (FrameErr.read .eof)) =
      (payloads, some (.read .eof)) ↔ ∀ payload ∈ payloads, f.delimiter ∉ payload := by
    rw [Prod.mk.injEq, and_iff_left rfl, flatMap_splitOn_eq_self_iff]
  rw [hplain, hbuffered]
  exact ⟨hparts, hparts⟩

/-- The lines `hi` and the empty one. -/
def twoLines : Source UInt8 where
  chunks := [⟨[0x68], List.cons_ne_nil _ _⟩, ⟨[0x69, 0x0A, 0x0A], List.cons_ne_nil _ _⟩]

theorem line_round_trip_iff_twoLines :
    untilError ((⟨3, 0⟩ : LineFramer).readFrame Source.reader) 5 twoLines =
        ([[0x68, 0x69], []], some (.read .eof)) ∧
      untilError (⟨3, 0⟩ : LineFramer).readFrameBuffered 5 (.new 16 twoLines) =
        ([[0x68, 0x69], []], some (.read .eof)) := by
  have h := @line_round_trip_iff ⟨3, 0⟩ [[0x68, 0x69], []] [0x68, 0x69, 0x0A, 0x0A]
    (by decide +kernel) twoLines rfl 16 5 (by decide)
  exact ⟨h.1.mpr (by decide), h.2.mpr (by decide)⟩

/-- A payload with the delimiter in it is accepted and comes back as two. -/
theorem line_split_in_two :
    sentBytes (⟨0, 0⟩ : LineFramer).writeFrame [[0x61, 0x0A, 0x62]] = .ok [0x61, 0x0A, 0x62, 0x0A] ∧
      untilError ((⟨0, 0⟩ : LineFramer).readFrame Source.reader) 5
          ⟨[⟨[0x61, 0x0A, 0x62, 0x0A], List.cons_ne_nil _ _⟩]⟩ =
        ([[0x61], [0x62]], some (.read .eof)) ∧
      untilError (⟨0, 0⟩ : LineFramer).readFrameBuffered 5
          (.new 16 ⟨[⟨[0x61, 0x0A, 0x62, 0x0A], List.cons_ne_nil _ _⟩]⟩) =
        ([[0x61], [0x62]], some (.read .eof)) := by
  decide +kernel

end SharkSocket.Tcp
