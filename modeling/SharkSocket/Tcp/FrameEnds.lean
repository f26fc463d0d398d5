import SharkSocket.Tcp.RoundTrip

/-!
# How reading length-prefixed frames stops

`frameOf_cases` lists what a read makes of the bytes to come: nothing is there, the
header is cut, the header announces too much, or the payload is read in full.  A length
is compared with the limit as a `uint32`, that is with `maxBytes % 2^32`.

* `frame_limit_monotone`: a larger limit reads the same frames and perhaps more, and a
  frame is too large exactly if its header says so, iff the limits are below `2^32` or
  `2^32 - 1` modulo `2^32`: at `2^32` the limit starts again at zero (`frame_limit_wraps`).
* `frames_end`: the error at the end tells a stream that ends on a boundary from one
  that is cut, except that `io.ReadFull` has the error of a clean end for a payload of
  which nothing is there (`cut_behind_header`).
-/

namespace SharkSocket.Tcp

open SharkSocket.Lib

namespace LengthPrefixFramer

/-- The length that a header announces. -/
def announced (b : Bytes) : Nat := beNat (b.take 4)

theorem checkHeader_take (f : LengthPrefixFramer) (b : Bytes) : f.checkHeader (b.take 4) =
      if f.maxBytes % 2 ^ 32 < announced b then .error (.frameTooLarge (announced b) f.maxBytes)
      else .ok (announced b) := by
  have hraw : (beUInt32 (b.take 4)).toNat = announced b := toNat_beUInt32 (List.length_take_le 4 b)
  have hlimit : (UInt32.ofNat f.maxBytes).toNat = f.maxBytes % 2 ^ 32 := UInt32.toNat_ofNat'
  unfold checkHeader
  dsimp only
  simp only [UInt32.lt_iff_toNat_lt, hraw, hlimit]

/-- What a read makes of the bytes to come. -/
inductive FrameCase (f : LengthPrefixFramer) (b : Bytes) : Prop
  | empty (hb : b = []) (heq : (f.frameOf b).1 = .error (.read .eof))
  | cutHeader (hpos : 0 < b.length) (hlt : b.length < 4)
      (heq : (f.frameOf b).1 = .error (.read .unexpectedEOF))
  | tooLarge (hheader : 4 ≤ b.length) (hover : f.maxBytes % 2 ^ 32 < announced b)
      (heq : (f.frameOf b).1 = .error (.frameTooLarge (announced b) f.maxBytes))
  | behindHeader (hheader : b.length = 4) (hfits : announced b ≤ f.maxBytes % 2 ^ 32)
      (hpos : 0 < announced b) (heq : (f.frameOf b).1 = .error (.read .eof))
  | cutPayload (hheader : 4 < b.length) (hfits : announced b ≤ f.maxBytes % 2 ^ 32)
      (hcut : b.length < 4 + announced b) (heq : (f.frameOf b).1 = .error (.read .unexpectedEOF))
  | whole (hfits : announced b ≤ f.maxBytes % 2 ^ 32) (hthere : 4 + announced b ≤ b.length)
      (heq : f.frameOf b = (.ok ((b.drop 4).take (announced b)), (b.drop 4).drop (announced b)))

variable {b : Bytes} {f : LengthPrefixFramer}

theorem frameOf_short (h : b.length < 4) :
    (f.frameOf b).1 = .error (.read (if b.length = 0 then .eof else .unexpectedEOF)) := by
  unfold frameOf Reader.fullOf
  rw [if_neg (by omega)]
  split
  · rename_i e he
    split_ifs at he ⊢
    · cases he
      rfl
    · cases he
      rfl
  rename_i header he
  split_ifs at he

theorem frameOf_header (h : 4 ≤ b.length) : f.frameOf b = if f.maxBytes % 2 ^ 32 < announced b then
        (.error (.frameTooLarge (announced b) f.maxBytes), b.drop 4)
      else ((Reader.fullOf (announced b) (b.drop 4)).mapError .read,
        (b.drop 4).drop (announced b)) := by
  have hfull : Reader.fullOf 4 b = .ok (b.take 4) := if_pos h
  unfold frameOf
  rw [hfull]
  dsimp only
  rw [checkHeader_take]
  split_ifs
  · rfl
  · rfl

theorem frameOf_cases (f : LengthPrefixFramer) (b : Bytes) : FrameCase f b := by
  by_cases hheader : 4 ≤ b.length
  · have heq := frameOf_header (f := f) hheader
    by_cases hover : f.maxBytes % 2 ^ 32 < announced b
    · rw [if_pos hover] at heq
      exact .tooLarge hheader hover (by rw [heq])
    rw [if_neg hover] at heq
    have hfits := Nat.le_of_not_lt hover
    have hdrop : (b.drop 4).length = b.length - 4 := List.length_drop
    by_cases hthere : announced b ≤ (b.drop 4).length
    · have hfull : Reader.fullOf (announced b) (b.drop 4) = .ok ((b.drop 4).take (announced b)) :=
        if_pos hthere
      rw [hfull] at heq
      exact .whole hfits (by omega) heq
    -- `io.ReadFull` has one error for a payload of which nothing is there, and
    -- another for a payload that is cut
    by_cases hnone : (b.drop 4).length = 0
    · have hfull : Reader.fullOf (announced b) (b.drop 4) = .error .eof := by
        rw [Reader.fullOf, if_neg hthere, if_pos hnone]
      rw [hfull] at heq
      exact .behindHeader (by omega) hfits (by omega) (by rw [heq]; rfl)
    have hfull : Reader.fullOf (announced b) (b.drop 4) = .error .unexpectedEOF := by
      rw [Reader.fullOf, if_neg hthere, if_neg hnone]
    rw [hfull] at heq
    exact .cutPayload (by omega) hfits (by omega) (by rw [heq]; rfl)
  · have heq := frameOf_short (f := f) (Nat.lt_of_not_le hheader)
    by_cases hzero : b.length = 0
    · rw [if_pos hzero] at heq
      exact .empty (List.length_eq_zero_iff.mp hzero) heq
    rw [if_neg hzero] at heq
    exact .cutHeader (by omega) (by omega) heq

/-- A frame that is read stands in front of what is left. -/
theorem frame_of_frameOf {p : Bytes} (h : (f.frameOf b).1 = .ok p) :
    p.length ≤ f.maxBytes % 2 ^ 32 ∧ b = frame p ++ (f.frameOf b).2 := by
  cases frameOf_cases f b with
  | empty _ heq | cutHeader _ _ heq | tooLarge _ _ heq | behindHeader _ _ _ heq
  | cutPayload _ _ _ heq => rw [heq] at h; cases h
  | whole hfits hthere heq =>
    rw [heq] at h ⊢
    cases h
    have hlen : ((b.drop 4).take (announced b)).length = announced b := by
      rw [List.length_take, List.length_drop]
      omega
    have hfour : (b.take 4).length = 4 := List.length_take_of_le (by omega)
    have hheader : putUInt32 (UInt32.ofNat (announced b)) = b.take 4 := by
      have hraw : UInt32.ofNat (announced b) = beUInt32 (b.take 4) := by
        rw [announced, ← toNat_beUInt32 (List.length_take_le 4 b), UInt32.ofNat_toNat]
      rw [hraw, putUInt32_beUInt32 hfour]
    refine ⟨by rw [hlen]; exact hfits, ?_⟩
    rw [frame, hlen, hheader, List.append_assoc, List.take_append_drop, List.take_append_drop]

/-! ### The limit -/

/-- An answer that wraps `core.ErrFrameTooLarge`. -/
def TooLarge (answer : Except FrameErr Bytes) : Prop :=
  ∃ e, answer = .error e ∧ e.kind = .frameTooLarge

theorem not_tooLarge_read (e : ReadErr) : ¬ TooLarge (.error (.read e)) := by
  rintro ⟨e', he, hkind⟩
  cases he
  cases hkind

theorem tooLarge_frameOf (f : LengthPrefixFramer) (b : Bytes) :
    TooLarge (f.frameOf b).1 ↔ 4 ≤ b.length ∧ f.maxBytes % 2 ^ 32 < announced b := by
  cases frameOf_cases f b with
  | empty hb heq =>
    rw [hb]
    exact iff_of_false (not_tooLarge_read _) (by simp)
  | cutHeader _ hlt heq | behindHeader _ hfits _ heq | cutPayload _ hfits _ heq =>
    rw [heq]
    exact iff_of_false (not_tooLarge_read _) (by omega)
  | tooLarge hheader hover heq =>
    rw [heq]
    exact iff_of_true ⟨_, rfl, rfl⟩ ⟨hheader, hover⟩
  | whole hfits _ heq =>
    rw [heq]
    refine iff_of_false ?_ (by omega)
    rintro ⟨e, he, -⟩
    cases he

/-- A frame within the smaller limit is read under the larger one. -/
theorem frameOf_mono {g : LengthPrefixFramer} (hle : f.maxBytes % 2 ^ 32 ≤ g.maxBytes % 2 ^ 32)
    {p : Bytes} (h : (f.frameOf b).1 = .ok p) : g.frameOf b = f.frameOf b := by
  cases frameOf_cases f b with
  | empty _ heq | cutHeader _ _ heq | tooLarge _ _ heq | behindHeader _ _ _ heq
  | cutPayload _ _ _ heq => rw [heq] at h; cases h
  | whole hfits hthere heq =>
    have hheader : 4 ≤ b.length := by omega
    rw [frameOf_header hheader, frameOf_header hheader, if_neg (by omega), if_neg (by omega)]

/-- What a larger limit changes for one way of reading, in one state: whatever is read under
the smaller limit is read under the larger one, frame by frame and over a whole stream, and
a frame is refused under either limit exactly if its header announces more than the limit. -/
def LimitLaw {σ : Type} (m m' : Int) (read : LengthPrefixFramer → σ → Except FrameErr Bytes × σ)
    (pending : σ → Bytes) (r : σ) : Prop :=
  (∀ p, (read ⟨m⟩ r).1 = .ok p → (read ⟨m'⟩ r).1 = .ok p) ∧
  (∀ fuel, (untilError (read ⟨m⟩) fuel r).1 <+: (untilError (read ⟨m'⟩) fuel r).1) ∧
  ∀ l ∈ [m, m'],
    (TooLarge (read ⟨l⟩ r).1 ↔ 4 ≤ (pending r).length ∧ l < announced (pending r))

/-- The limits that mean for a `uint32` what they say. -/
def Faithful (l : Int) : Prop := l < 2 ^ 32 ∨ l % 2 ^ 32 = 2 ^ 32 - 1

theorem announced_lt (b : Bytes) : announced b < 2 ^ 32 := by
  rw [announced, ← toNat_beUInt32 (List.length_take_le 4 b)]
  exact UInt32.toNat_lt _

theorem limitLaw_frameOf {m m' : Int} (hlo : 0 < m) (hle : m ≤ m')
    (h : ∀ l ∈ [m, m'], Faithful l) (b : Bytes) : LimitLaw m m' frameOf id b := by
  have hsmall := maxBytes_of_pos (f := ⟨m⟩) hlo
  have hlarge := maxBytes_of_pos (f := ⟨m'⟩) (lt_of_lt_of_le hlo hle)
  have hm : Faithful m := h m (by simp)
  have hm' : Faithful m' := h m' (by simp)
  unfold Faithful at hm hm'
  dsimp only at hsmall hlarge
  have hlimit : (⟨m⟩ : LengthPrefixFramer).maxBytes % 2 ^ 32 ≤
      (⟨m'⟩ : LengthPrefixFramer).maxBytes % 2 ^ 32 := by omega
  have hbound := announced_lt b
  refine ⟨?_, ?_, ?_⟩
  · intro p hp
    rw [frameOf_mono hlimit hp, hp]
  · intro fuel
    exact untilError_extends (fun b p => frameOf_mono (f := ⟨m⟩) (g := ⟨m'⟩) hlimit (b := b)) fuel b
  · simp only [List.forall_mem_cons, List.not_mem_nil, tooLarge_frameOf, id]
    refine ⟨?_, ?_, ?_⟩
    · omega
    · omega
    · simp

/-- A header that announces the largest length. -/
def largestHeader : Source UInt8 := ⟨[⟨[0xff, 0xff, 0xff, 0xff], List.cons_ne_nil _ _⟩]⟩

theorem faithful_of_limitLaw {m m' : Int} (hlo : 0 < m) (hle : m ≤ m')
    (h : LimitLaw m m' frameOf id largestHeader.pending) : ∀ l ∈ [m, m'], Faithful l := by
  have hannounced : announced largestHeader.pending = 2 ^ 32 - 1 := by decide
  intro l hl
  have hpos : 0 < l := by
    simp only [List.mem_cons, List.not_mem_nil, or_false] at hl
    omega
  have hmax := maxBytes_of_pos (f := ⟨l⟩) hpos
  have hlaw := h.2.2 l hl
  rw [tooLarge_frameOf, id, hannounced] at hlaw
  have hfour : 4 ≤ largestHeader.pending.length := by decide
  unfold Faithful
  dsimp only at hmax
  simp only [hfour, true_and] at hlaw
  omega

/-- Both ways of reading see the bytes to come and no more. -/
theorem limitLaw_readFrame {σ : Type} (R : Reader σ UInt8) (m m' : Int) (r : σ) :
    LimitLaw m m' (fun f => f.readFrame R) R.pending r ↔ LimitLaw m m' frameOf id (R.pending r) := by
  have hread : ∀ f : LengthPrefixFramer, (f.readFrame R r).1 = (f.frameOf (R.pending r)).1 := by
    intro f
    obtain ⟨s, hs, -⟩ := f.readFrame_eq R r
    rw [hs]
  simp only [LimitLaw, hread, untilError_readFrame, id]

theorem limitLaw_readFrameBuffered {br : BufReader UInt8} (hsize : minReadBufferSize ≤ br.size)
    (m m' : Int) : LimitLaw m m' readFrameBuffered BufReader.pending br ↔
      LimitLaw m m' frameOf id br.pending := by
  have hfour : 4 ≤ br.size := le_trans (by decide) hsize
  have hread : ∀ f : LengthPrefixFramer,
      (f.readFrameBuffered br).1 = (f.frameOf br.pending).1 := by
    intro f
    obtain ⟨s, hs, -⟩ := f.readFrameBuffered_eq hfour
    rw [hs]
  simp only [LimitLaw, hread, untilError_readFrameBuffered _ _ hfour, id]

end LengthPrefixFramer

open LengthPrefixFramer in
/-- **The limit on a frame is monotone** on both paths, for every reader in every state,
exactly if each of the two limits is below `2^32` or is `2^32 - 1` modulo `2^32`. -/
theorem frame_limit_monotone (m m' : Int) (hlo : 0 < m) (hle : m ≤ m') :
    ((∀ {σ : Type} (R : Reader σ UInt8) (r : σ),
      LimitLaw m m' (fun f => f.readFrame R) R.pending r) ↔ ∀ l ∈ [m, m'], Faithful l) ∧
    ((∀ br : BufReader UInt8, minReadBufferSize ≤ br.size →
      LimitLaw m m' readFrameBuffered BufReader.pending br) ↔ ∀ l ∈ [m, m'], Faithful l) := by
  refine ⟨⟨?_, ?_⟩, ?_, ?_⟩
  · intro h
    exact faithful_of_limitLaw hlo hle
      ((limitLaw_readFrame Source.reader m m' _).mp (h Source.reader largestHeader))
  · intro h σ R r
    exact (limitLaw_readFrame R m m' r).mpr (limitLaw_frameOf hlo hle h _)
  · intro h
    exact faithful_of_limitLaw hlo hle
      ((limitLaw_readFrameBuffered (by decide) m m').mp (h (.new 16 largestHeader) (by decide)))
  · intro h br hsize
    exact (limitLaw_readFrameBuffered hsize m m').mpr (limitLaw_frameOf hlo hle h _)

def oneByteFrame : Source UInt8 := ⟨[⟨[0, 0, 0, 1, 0x61], List.cons_ne_nil _ _⟩]⟩

theorem frame_limit_monotone_oneByteFrame :
    ((⟨1⟩ : LengthPrefixFramer).readFrame Source.reader oneByteFrame).1 = .ok [0x61] ∧
      ((⟨2 ^ 32 - 1⟩ : LengthPrefixFramer).readFrame Source.reader oneByteFrame).1 = .ok [0x61] := by
  have hread : ((⟨1⟩ : LengthPrefixFramer).readFrame Source.reader oneByteFrame).1 =
      .ok [0x61] := by decide +kernel
  have hlaw := (frame_limit_monotone 1 (2 ^ 32 - 1) (by decide) (by decide)).1.mpr
    (by unfold LengthPrefixFramer.Faithful; decide) Source.reader oneByteFrame
  exact ⟨hread, hlaw.1 _ hread⟩

/-- The limit `2^32` refuses a frame of one byte, which the limit `1` lets pass. -/
theorem frame_limit_wraps :
    ((⟨1⟩ : LengthPrefixFramer).readFrame Source.reader oneByteFrame).1 = .ok [0x61] ∧
      ((⟨2 ^ 32⟩ : LengthPrefixFramer).readFrame Source.reader oneByteFrame).1 =
        .error (.frameTooLarge 1 (2 ^ 32)) ∧
      ((⟨2 ^ 32⟩ : LengthPrefixFramer).readFrameBuffered (.new 16 oneByteFrame)).1 =
        .error (.frameTooLarge 1 (2 ^ 32)) := by
  decide +kernel

/-! ### The end of the stream -/

namespace LengthPrefixFramer

variable (f : LengthPrefixFramer)

/-- Complete frames within the limit, and then `rest`. -/
def FramesThen (b rest : Bytes) : Prop :=
  ∃ payloads : List Bytes, (∀ p ∈ payloads, p.length ≤ f.maxBytes) ∧
    b = payloads.flatMap frame ++ rest

/-- The stream ends on a frame boundary. -/
def OnBoundary (b : Bytes) : Prop := f.FramesThen b []

/-- The stream ends inside a header, or inside the payload that a header announces. -/
def InsideFrame (b : Bytes) : Prop :=
  ∃ rest, f.FramesThen b rest ∧
    ((0 < rest.length ∧ rest.length < 4) ∨
      (4 ≤ rest.length ∧ announced rest ≤ f.maxBytes ∧ rest.length < 4 + announced rest))

/-- The next complete header announces more than the limit. -/
def OverLimit (b : Bytes) : Prop :=
  ∃ rest, f.FramesThen b rest ∧ 4 ≤ rest.length ∧ f.maxBytes < announced rest

/-- The stream ends behind the header of a frame that is not empty. -/
def BehindHeader (b : Bytes) : Prop :=
  ∃ rest, f.FramesThen b rest ∧ rest.length = 4 ∧ 0 < announced rest ∧
    announced rest ≤ f.maxBytes

theorem BehindHeader.insideFrame {f : LengthPrefixFramer} {b : Bytes} (h : f.BehindHeader b) :
    f.InsideFrame b := by
  obtain ⟨rest, hframes, hheader, hpos, hfits⟩ := h
  exact ⟨rest, hframes, .inr ⟨hheader.ge, hfits, by omega⟩⟩

variable {f} (hmax : f.maxBytes < 2 ^ 32) {fuel : Nat}

include hmax

/-- The error at the end of the stream is that of the first bytes that are no frame. -/
theorem untilError_frames {b rest : Bytes} (hframes : f.FramesThen b rest) {e : FrameErr}
    (hrest : (f.frameOf rest).1 = .error e) (hfuel : b.length < fuel) :
    (untilError f.frameOf fuel b).2 = some e := by
  obtain ⟨payloads, hfit, rfl⟩ := hframes
  have hshort : payloads.length ≤ (payloads.flatMap frame).length := by
    clear hfit hfuel
    induction payloads with
    | nil => exact Nat.zero_le _
    | cons p payloads ih =>
      have hone : 0 < (frame p).length := by simp [frame, putUInt32]
      rw [List.flatMap_cons, List.length_append, List.length_cons]
      omega
  rw [List.length_append] at hfuel
  have heq := untilError_flatMap_append hrest payloads
    (fun p hp tail => frameOf_frame hmax (hfit p hp) tail) fuel (by omega)
  rw [heq]

theorem exists_rest (b : Bytes) (hfuel : b.length < fuel) :
    ∃ rest e, f.FramesThen b rest ∧ (f.frameOf rest).1 = .error e ∧
      (untilError f.frameOf fuel b).2 = some e := by
  obtain ⟨e, he⟩ := untilError_ends List.length (fun b p => f.frameOf_shorter) fuel hfuel
  have hmod : f.maxBytes % 2 ^ 32 = f.maxBytes := Nat.mod_eq_of_lt hmax
  obtain ⟨rest, hfit, hb, hrest⟩ := eq_flatMap_of_untilError
      (fun l p h => frame_of_frameOf h) (Prod.ext rfl he)
  rw [hmod] at hfit
  exact ⟨rest, e, ⟨_, hfit, hb⟩, hrest, he⟩

variable {b : Bytes} (hfuel : b.length < fuel) {e : FrameErr}
  (he : (untilError f.frameOf fuel b).2 = some e)

include hfuel he

/-- The bytes behind some frames decide the error, if they are no frame. -/
theorem error_eq {rest : Bytes} {e' : FrameErr} (hframes : f.FramesThen b rest)
    (herr : (f.frameOf rest).1 = .error e') : e' = e :=
  Option.some.inj ((untilError_frames hmax hframes herr hfuel).symm.trans he)

/-- What the error at the end says of the stream. -/
theorem stream_of_kind : (e.kind = .read .eof → f.OnBoundary b ∨ f.BehindHeader b) ∧
    (e.kind = .read .unexpectedEOF → f.InsideFrame b) ∧
    (e.kind = .frameTooLarge → f.OverLimit b) := by
  have hmod : f.maxBytes % 2 ^ 32 = f.maxBytes := Nat.mod_eq_of_lt hmax
  obtain ⟨rest, e', hframes, herr, -⟩ := exists_rest hmax b hfuel
  obtain rfl := error_eq hmax hfuel he hframes herr
  cases frameOf_cases f rest with
  | empty hb heq =>
    obtain rfl := Except.error.inj (heq.symm.trans herr)
    rw [hb] at hframes
    exact ⟨fun _ => .inl hframes, nofun, nofun⟩
  | cutHeader hpos hlt heq =>
    obtain rfl := Except.error.inj (heq.symm.trans herr)
    exact ⟨nofun, fun _ => ⟨rest, hframes, .inl ⟨hpos, hlt⟩⟩, nofun⟩
  | tooLarge hheader hover heq =>
    obtain rfl := Except.error.inj (heq.symm.trans herr)
    exact ⟨nofun, nofun, fun _ => ⟨rest, hframes, hheader, hmod ▸ hover⟩⟩
  | behindHeader hheader hfits hpos heq =>
    obtain rfl := Except.error.inj (heq.symm.trans herr)
    exact ⟨fun _ => .inr ⟨rest, hframes, hheader, hpos, hmod ▸ hfits⟩, nofun, nofun⟩
  | cutPayload hheader hfits hcut heq =>
    obtain rfl := Except.error.inj (heq.symm.trans herr)
    exact ⟨nofun, fun _ => ⟨rest, hframes, .inr ⟨by omega, hmod ▸ hfits, hcut⟩⟩, nofun⟩
  | whole _ _ heq =>
    rw [heq] at herr
    cases herr

/-- What the stream says of the error at its end. -/
theorem kind_of_stream : (f.OnBoundary b ∨ f.BehindHeader b → e.kind = .read .eof) ∧
    (f.InsideFrame b → ¬ f.BehindHeader b → e.kind = .read .unexpectedEOF) ∧
    (f.OverLimit b → e.kind = .frameTooLarge) := by
  have hmod : f.maxBytes % 2 ^ 32 = f.maxBytes := Nat.mod_eq_of_lt hmax
  refine ⟨?_, ?_, ?_⟩
  · rintro (hb | ⟨rest, hframes, hheader, hpos, hfits⟩)
    · rw [← error_eq hmax hfuel he hb (frameOf_short (by decide))]
      rfl
    · cases frameOf_cases f rest with
      | empty hb _ => rw [hb] at hheader; cases hheader
      | cutHeader _ hlt _ | tooLarge _ hover _ => omega
      | behindHeader _ _ _ heq => rw [← error_eq hmax hfuel he hframes heq]; rfl
      | cutPayload hlong _ _ _ | whole _ hthere _ => omega
  · rintro ⟨rest, hframes, hcut⟩ hnot
    cases frameOf_cases f rest with
    | empty hb _ => rw [hb] at hcut; simp at hcut
    | cutHeader _ _ heq | cutPayload _ _ _ heq =>
      rw [← error_eq hmax hfuel he hframes heq]
      rfl
    | tooLarge _ hover _ => omega
    | behindHeader hheader hfits hpos _ =>
      exact absurd ⟨rest, hframes, hheader, hpos, hmod ▸ hfits⟩ hnot
    | whole _ hthere _ => omega
  · rintro ⟨rest, hframes, hheader, hover⟩
    rw [← error_eq hmax hfuel he hframes (by rw [frameOf_header hheader, if_pos (by omega)])]
    rfl

end LengthPrefixFramer

open LengthPrefixFramer in
/-- **How a stream of frames ends**, in any pieces, with a buffer of any size and without:
`io.EOF` exactly on a boundary, `io.ErrUnexpectedEOF` exactly inside a frame, and
`core.ErrFrameTooLarge` exactly at a header that announces more than the limit.  This is so
iff the stream does not end right behind the header of a frame that is not empty. -/
theorem frames_end (f : LengthPrefixFramer) (hlo : 1 ≤ f.maxFrameBytes)
    (hhi : f.maxFrameBytes ≤ 2 ^ 32 - 1) (s : Source UInt8) (size fuel : Nat)
    (hfuel : s.pending.length < fuel) :
    ∃ e, (untilError (f.readFrame Source.reader) fuel s).2 = some e ∧
      (untilError f.readFrameBuffered fuel (.new size s)).2 = some e ∧
      ((e.kind = .read .eof ↔ f.OnBoundary s.pending) ∧
        (e.kind = .read .unexpectedEOF ↔ f.InsideFrame s.pending) ∧
        (e.kind = .frameTooLarge ↔ f.OverLimit s.pending) ↔ ¬ f.BehindHeader s.pending) := by
  have hmax := maxBytes_of_pos hlo
  have hlt : f.maxBytes < 2 ^ 32 := by omega
  have hplain : untilError (f.readFrame Source.reader) fuel s =
      untilError f.frameOf fuel s.pending :=
    f.untilError_readFrame Source.reader fuel s
  obtain ⟨rest, e, -, -, he⟩ := exists_rest hlt s.pending hfuel
  obtain ⟨hboundary, hinside, hover⟩ := stream_of_kind hlt hfuel he
  obtain ⟨heof, hcut, hlarge⟩ := kind_of_stream hlt hfuel he
  refine ⟨e, ?_, ?_, ?_, ?_⟩
  · rw [hplain, he]
  · rw [f.untilError_new size s fuel, hplain, he]
  · rintro ⟨-, hunexpected, -⟩ hbehind
    -- the end behind a header is inside a frame, and its error is that of a clean end
    have hkind := heof (.inr hbehind)
    rw [hunexpected.mpr hbehind.insideFrame] at hkind
    cases hkind
  · intro hnot
    exact ⟨⟨fun h => (hboundary h).resolve_right hnot, fun h => heof (.inl h)⟩,
      ⟨hinside, fun h => hcut h hnot⟩, hover, hlarge⟩

/-- A frame and one byte of the next header. -/
def cutInHeader : Source UInt8 := ⟨[⟨[0, 0, 0, 1, 0x61, 0], List.cons_ne_nil _ _⟩]⟩

theorem frames_end_cutInHeader :
    ∃ e, (untilError ((⟨1⟩ : LengthPrefixFramer).readFrame Source.reader) 7 cutInHeader).2 = some e ∧
      e.kind = .read .unexpectedEOF ∧
      (⟨1⟩ : LengthPrefixFramer).InsideFrame cutInHeader.pending := by
  have hframes : (⟨1⟩ : LengthPrefixFramer).FramesThen cutInHeader.pending [0] :=
    ⟨[[0x61]], by decide, by decide⟩
  have hcut : ¬ (⟨1⟩ : LengthPrefixFramer).BehindHeader cutInHeader.pending := by
    rintro ⟨rest, ⟨payloads, hfit, hb⟩, hheader, -, -⟩
    cases payloads with
    | nil =>
      rw [List.flatMap_nil, List.nil_append] at hb
      rw [← hb] at hheader
      exact absurd hheader (by decide)
    | cons p payloads =>
      have hlen := congrArg List.length hb
      rw [List.flatMap_cons] at hlen
      simp only [List.length_append, hheader, LengthPrefixFramer.frame, putUInt32] at hlen
      simp [cutInHeader, Source.pending] at hlen
      omega
  obtain ⟨e, hplain, -, hiff⟩ :=
    frames_end ⟨1⟩ (by decide) (by decide) cutInHeader 16 7 (by decide)
  have hin : (⟨1⟩ : LengthPrefixFramer).InsideFrame cutInHeader.pending :=
    ⟨[0], hframes, .inl (by decide)⟩
  exact ⟨e, hplain, (hiff.mpr hcut).2.1.mpr hin, hin⟩

/-- A header that announces one byte, and no more. -/
def cutBehindHeader : Source UInt8 := ⟨[⟨[0, 0, 0, 1], List.cons_ne_nil _ _⟩]⟩

/-- The payload is missing, and the reader says that the stream has ended. -/
theorem cut_behind_header :
    (⟨1⟩ : LengthPrefixFramer).InsideFrame cutBehindHeader.pending ∧
      untilError ((⟨1⟩ : LengthPrefixFramer).readFrame Source.reader) 5 cutBehindHeader =
        ([], some (.read .eof)) ∧
      untilError (⟨1⟩ : LengthPrefixFramer).readFrameBuffered 5 (.new 16 cutBehindHeader) =
        ([], some (.read .eof)) := by
  refine ⟨⟨[0, 0, 0, 1], ⟨[], by decide, by decide⟩, .inr ?_⟩, ?_, ?_⟩
  · decide
  · decide +kernel
  · decide +kernel

end SharkSocket.Tcp
