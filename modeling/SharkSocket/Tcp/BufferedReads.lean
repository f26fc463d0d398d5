import SharkSocket.Tcp.Framer

/-!
# Frames through a buffer and without one

For each framer, one function of the bytes to come says what a read of a frame
returns and what it leaves.  The length-prefix framer has the same function on both
paths.  The line framer has two: the plain loop counts the delimiter against the
limit and looks at the limit after every byte, the buffered one does neither.

* `lengthPrefix_buffered_eq_plain`: the same frames and the same error;
* `lineFramer_agree_iff`: the streams on which the two paths of the line framer
  agree;
* `readBuffer_invisible`: for the other framers `ReadBufferBytes` changes nothing
  that `readLoop` can see.
-/

namespace SharkSocket.Tcp

open SharkSocket.Lib

variable {σ : Type*}

/-! ### Length-prefixed frames -/

namespace LengthPrefixFramer

variable (f : LengthPrefixFramer)

/-- A read of a frame as a function of the bytes to come. -/
def frameOf (b : Bytes) : Except FrameErr Bytes × Bytes :=
  match Reader.fullOf 4 b with
  | .error e => (.error (.read e), b.drop 4)
  | .ok header =>
    match f.checkHeader header with
    | .error e => (.error e, b.drop 4)
    | .ok raw => ((Reader.fullOf raw (b.drop 4)).mapError .read, (b.drop 4).drop raw)

theorem readFrame_eq (R : Reader σ UInt8) (r : σ) :
    ∃ r', f.readFrame R r = ((f.frameOf (R.pending r)).1, r') ∧
      R.pending r' = (f.frameOf (R.pending r)).2 := by
  obtain ⟨r', hheader, hrest⟩ := R.readFull_eq 4 r
  unfold readFrame frameOf
  rw [hheader]
  cases Reader.fullOf 4 (R.pending r) with
  | error e => exact ⟨r', rfl, hrest⟩
  | ok header =>
    dsimp only
    cases f.checkHeader header with
    | error e => exact ⟨r', rfl, hrest⟩
    | ok raw =>
      obtain ⟨r'', hpay, hleft⟩ := R.readFull_eq raw r'
      rw [hrest] at hpay hleft
      refine ⟨r'', ?_, hleft⟩
      dsimp only
      rw [hpay, fullFrame]

/-- `Peek`, with the two errors of `io.ReadFull` told apart by what is buffered. -/
theorem fullOf_of_peekOf {b buf : Bytes} (hbuf : 4 ≤ buf.length ∨ buf = b)
    {e : ReadErr} (h : BufReader.peekOf 4 b = .error e) (hle : buf.length ≤ b.length) :
    Reader.fullOf 4 b = .error (if e = .eof ∧ 0 < buf.length then .unexpectedEOF else e) := by
  unfold BufReader.peekOf at h
  unfold Reader.fullOf
  split_ifs at h with hlen
  cases h
  obtain rfl : buf = b := hbuf.resolve_left (by omega)
  rw [if_neg hlen]
  by_cases hz : buf.length = 0
  · rw [if_pos hz, if_neg (by omega)]
  · rw [if_neg hz, if_pos ⟨rfl, by omega⟩]

theorem readFrameBuffered_eq {br : BufReader UInt8} (hsize : 4 ≤ br.size) :
    ∃ br', f.readFrameBuffered br = ((f.frameOf br.pending).1, br') ∧ br'.size = br.size ∧
      ∀ p, (f.frameOf br.pending).1 = .ok p → br'.pending = (f.frameOf br.pending).2 := by
  obtain ⟨br', hpeek, hrest, hsame, hbuf⟩ := BufReader.peek_eq hsize
  have hle := (BufReader.prefix_pending br').length_le
  rw [hrest] at hle
  unfold readFrameBuffered frameOf
  rw [hpeek]
  cases hhead : BufReader.peekOf 4 br.pending with
  | error e =>
    rw [fullOf_of_peekOf hbuf hhead hle]
    dsimp only
    split <;> exact ⟨br', rfl, hsame, fun p hp => by cases hp⟩
  | ok header =>
    obtain ⟨hlen, rfl⟩ := BufReader.peekOf_ok hhead
    have hroom : 4 ≤ br'.buf.length := by
      rcases hbuf with h | h
      · exact h
      · rwa [h]
    have hfull : Reader.fullOf 4 br.pending = .ok (br.pending.take 4) := if_pos hlen
    rw [hfull]
    dsimp only
    cases f.checkHeader (br.pending.take 4) with
    | error e => exact ⟨br', rfl, hsame, fun p hp => by cases hp⟩
    | ok raw =>
      rw [BufReader.discard_buffered hroom]
      obtain ⟨br'', hpay, hleft, hkept⟩ := (br'.advance 4).readFull_eq raw
      rw [BufReader.pending_advance br' hroom, hrest] at hpay hleft
      refine ⟨br'', ?_, hkept.trans hsame, fun p _ => hleft⟩
      dsimp only
      rw [hpay, fullFrame]

/-- A frame takes its header at least. -/
theorem frameOf_shorter {b p : Bytes} (h : (f.frameOf b).1 = .ok p) :
    (f.frameOf b).2.length < b.length := by
  unfold frameOf at h ⊢
  cases hfull : Reader.fullOf 4 b with
  | error e => rw [hfull] at h; cases h
  | ok header =>
    rw [hfull] at h
    obtain ⟨hlen, rfl⟩ := Reader.fullOf_ok hfull
    dsimp only at h ⊢
    cases hcheck : f.checkHeader (b.take 4) with
    | error e => rw [hcheck] at h; cases h
    | ok raw =>
      simp only [List.length_drop]
      omega

theorem kind_of_fullOf {n : Nat} {b : Bytes} {e : FrameErr}
    (h : (Reader.fullOf n b).mapError FrameErr.read = .error e) :
    e.kind = .read .eof ∨ e.kind = .read .unexpectedEOF := by
  unfold Reader.fullOf at h
  split_ifs at h
  · cases h
  · cases h
    exact .inl rfl
  · cases h
    exact .inr rfl

theorem kind_of_frameOf {b : Bytes} {e : FrameErr} (h : (f.frameOf b).1 = .error e) :
    e.kind = .read .eof ∨ e.kind = .read .unexpectedEOF ∨ e.kind = .frameTooLarge := by
  unfold frameOf at h
  cases hfull : Reader.fullOf 4 b with
  | error e' =>
    have hread : (Reader.fullOf 4 b).mapError FrameErr.read = .error e := by
      rw [hfull] at h ⊢
      exact h
    exact (kind_of_fullOf hread).imp_right .inl
  | ok header =>
    rw [hfull] at h
    dsimp only at h
    cases hcheck : f.checkHeader header with
    | error e' =>
      rw [hcheck] at h
      cases h
      unfold checkHeader at hcheck
      dsimp only at hcheck
      split_ifs at hcheck
      cases hcheck
      exact .inr (.inr rfl)
    | ok raw =>
      rw [hcheck] at h
      exact (kind_of_fullOf h).imp_right .inl

end LengthPrefixFramer

/-- Frames of any reader, as frames of the bytes to come. -/
theorem LengthPrefixFramer.untilError_readFrame (f : LengthPrefixFramer) (R : Reader σ UInt8)
    (fuel : Nat) (r : σ) :
    untilError (f.readFrame R) fuel r = untilError f.frameOf fuel (R.pending r) := by
  refine untilError_sim (fun r b => R.pending r = b) ?_ ?_ fuel rfl
  · rintro r _ rfl
    obtain ⟨r', heq, -⟩ := f.readFrame_eq R r
    rw [heq]
  · rintro r _ p rfl -
    obtain ⟨r', heq, hrest⟩ := f.readFrame_eq R r
    rw [heq]
    exact hrest

theorem LengthPrefixFramer.untilError_readFrameBuffered (f : LengthPrefixFramer) (fuel : Nat)
    {br : BufReader UInt8} (hsize : 4 ≤ br.size) :
    untilError f.readFrameBuffered fuel br = untilError f.frameOf fuel br.pending := by
  refine untilError_sim (fun br b => 4 ≤ br.size ∧ br.pending = b) ?_ ?_ fuel ⟨hsize, rfl⟩
  · rintro br _ ⟨hbr, rfl⟩
    obtain ⟨br', heq, -, -⟩ := f.readFrameBuffered_eq hbr
    rw [heq]
  · rintro br _ p ⟨hbr, rfl⟩ hp
    obtain ⟨br', heq, hkept, hrest⟩ := f.readFrameBuffered_eq hbr
    rw [heq] at hp ⊢
    exact ⟨hkept ▸ hbr, hrest p hp⟩

theorem LengthPrefixFramer.untilError_new (f : LengthPrefixFramer) (size : Nat)
    (s : Source UInt8) (fuel : Nat) : untilError f.readFrameBuffered fuel (.new size s) =
      untilError (f.readFrame Source.reader) fuel s := by
  have hsize : 4 ≤ (BufReader.new size s).size :=
    le_trans (by decide) (Nat.le_max_right size minReadBufferSize)
  exact (f.untilError_readFrameBuffered fuel hsize).trans
    (f.untilError_readFrame Source.reader fuel s).symm

/-- **The length-prefix framer reads the same frames with a buffer and without**, and
stops with the same error. -/
theorem lengthPrefix_buffered_eq_plain (f : LengthPrefixFramer) (size : Nat) (s : Source UInt8) :
    untilError f.readFrameBuffered (s.pending.length + 1) (.new size s) =
        untilError (f.readFrame Source.reader) (s.pending.length + 1) s ∧
      ∃ e, (untilError (f.readFrame Source.reader) (s.pending.length + 1) s).2 = some e ∧
        (e.kind = .read .eof ∨ e.kind = .read .unexpectedEOF ∨ e.kind = .frameTooLarge) := by
  have hplain := f.untilError_readFrame Source.reader (s.pending.length + 1) s
  refine ⟨f.untilError_new size s _, ?_⟩
  obtain ⟨e, he⟩ := untilError_ends List.length (fun b p => f.frameOf_shorter)
    (s.pending.length + 1) (Nat.lt_succ_self _)
  obtain ⟨b, hb⟩ := exists_error_of_untilError he
  exact ⟨e, hplain ▸ he, f.kind_of_frameOf hb⟩

/-! ### Lines -/

namespace LineFramer

open BufReader (indexOf?)

/-- A line of fewer than `limit` bytes, `acc` included; without a delimiter it
depends on how many bytes there are whether the limit or the end of the stream comes
first. -/
def lineFrom (d : UInt8) (limit : Nat) (tooLong : Nat → Bool) (acc b : Bytes) :
    Except FrameErrKind Bytes × Bytes :=
  match indexOf? d b with
  | some i =>
    if acc.length + i < limit then (.ok (acc ++ b.take i), b.drop (i + 1))
    else (.error .frameTooLarge, [])
  | none => (.error (if tooLong (acc.length + b.length) then .frameTooLarge else .read .eof), [])

/-- The plain path: the delimiter counts, and so does every byte. -/
def plainLine (d : UInt8) (max : Nat) : Bytes → Except FrameErrKind Bytes × Bytes :=
  lineFrom d max (fun n => max < n) []

/-- The buffered path: the delimiter does not count, and of a line without one only
the slices that filled the buffer do. -/
def bufferedLine (d : UInt8) (max size : Nat) : Bytes → Except FrameErrKind Bytes × Bytes :=
  lineFrom d (max + 1) (fun n => max < n / size * size) []

section LineFrom

variable {d : UInt8} {limit : Nat} {tooLong : Nat → Bool} {acc b : Bytes}

theorem lineFrom_skip {n : Nat} (h : indexOf? d (b.take n) = none) (hn : n ≤ b.length) :
    lineFrom d limit tooLong acc b = lineFrom d limit tooLong (acc ++ b.take n) (b.drop n) := by
  have hlen : (acc ++ b.take n).length = acc.length + n := by
    rw [List.length_append, List.length_take_of_le hn]
  unfold lineFrom
  rw [BufReader.indexOf?_drop h hn, hlen]
  cases indexOf? d (b.drop n) with
  | none =>
    dsimp only [Option.map_none]
    rw [List.length_drop, show acc.length + n + (b.length - n) = acc.length + b.length by omega]
  | some i =>
    dsimp only [Option.map_some]
    rw [show acc.length + n + i = acc.length + (i + n) by omega, List.drop_drop,
      show n + (i + 1) = i + n + 1 by omega, Nat.add_comm i n, List.take_add, List.append_assoc]

/-- Nothing more fits. -/
theorem lineFrom_full (h : limit ≤ acc.length) (hlong : tooLong (acc.length + b.length) = true) :
    lineFrom d limit tooLong acc b = (.error .frameTooLarge, []) := by
  unfold lineFrom
  split
  · rw [if_neg (by omega)]
  · rw [if_pos hlong]

theorem lineFrom_end (h : indexOf? d b = none) (hshort : tooLong (acc.length + b.length) = false) :
    lineFrom d limit tooLong acc b = (.error (.read .eof), []) := by
  unfold lineFrom
  rw [h, hshort]
  rfl

theorem lineFrom_line {i : Nat} (h : indexOf? d b = some i) (hfits : acc.length + i < limit) :
    lineFrom d limit tooLong acc b = (.ok (acc ++ b.take i), b.drop (i + 1)) := by
  unfold lineFrom
  rw [h]
  exact if_pos hfits

/-- A line takes its delimiter at least. -/
theorem lineFrom_shorter {p : Bytes} (h : (lineFrom d limit tooLong acc b).1 = .ok p) :
    (lineFrom d limit tooLong acc b).2.length < b.length := by
  unfold lineFrom at h ⊢
  cases hidx : indexOf? d b with
  | none => rw [hidx] at h; cases h
  | some i =>
    have hlt := BufReader.lt_of_indexOf? hidx
    rw [hidx] at h
    dsimp only at h ⊢
    split at h
    · rename_i hfits
      rw [if_pos hfits, List.length_drop]
      omega
    · cases h

theorem lineFrom_ends (d : UInt8) (limit : Nat) (tooLong : Nat → Bool) (b : Bytes) :
    ∃ e, (untilError (lineFrom d limit tooLong []) (b.length + 1) b).2 = some e :=
  untilError_ends List.length (fun _ _ h => lineFrom_shorter h) _ (Nat.lt_succ_self _)

theorem lineFrom_overlong {i : Nat} (h : indexOf? d b = some i) (hover : limit ≤ acc.length + i) :
    lineFrom d limit tooLong acc b = (.error .frameTooLarge, []) := by
  unfold lineFrom
  rw [h]
  exact if_neg (by omega)

end LineFrom

/-- The answer is the one of `line`, and without an error so is what is left. -/
def Answers (x : Except FrameErr Bytes × σ) (pending : σ → Bytes)
    (line : Except FrameErrKind Bytes × Bytes) : Prop :=
  x.1.mapError FrameErr.kind = line.1 ∧ ∀ p, x.1 = .ok p → pending x.2 = line.2

theorem answers_error {e : FrameErr} {r : σ} {pending : σ → Bytes} {left : Bytes} :
    Answers (.error e, r) pending (.error e.kind, left) :=
  ⟨rfl, fun p hp => by cases hp⟩

theorem plainLoop_answers (R : Reader σ UInt8) (d : UInt8) (max fuel : Nat) (line : Bytes) (r : σ)
    (hline : line.length ≤ max) (hfuel : max < fuel + line.length) :
    Answers (plainLoop R d max fuel line r) R.pending
      (lineFrom d max (fun n => max < n) line (R.pending r)) := by
  induction fuel generalizing line r with
  | zero => omega
  | succ fuel ih =>
    obtain ⟨r', hread, hrest⟩ := R.readFull_eq 1 r
    rw [plainLoop, hread]
    cases hb : R.pending r with
    | nil =>
      -- the stream ends before the delimiter
      rw [lineFrom_end rfl (decide_eq_false (by simpa using hline))]
      exact answers_error
    | cons x rest =>
      rw [hb] at hrest
      have hfull : Reader.fullOf 1 (x :: rest) = .ok [x] := if_pos (by simp)
      rw [hfull]
      dsimp only
      have hlen : (line ++ [x]).length = line.length + 1 := by simp
      by_cases hmax : max < (line ++ [x]).length
      · rw [if_pos hmax, lineFrom_full (by omega) (decide_eq_true (by simp; omega))]
        exact answers_error
      rw [if_neg hmax]
      by_cases hx : [x] = [d]
      · obtain rfl : x = d := List.singleton_inj.mp hx
        have hidx : indexOf? x ([] ++ x :: rest) = some [].length :=
          BufReader.indexOf?_append_cons List.not_mem_nil rest
        rw [List.nil_append] at hidx
        rw [if_pos hx, lineFrom_line hidx (by simp; omega)]
        exact ⟨by simp [Except.mapError], fun p _ => hrest⟩
      have hnone : indexOf? d ((x :: rest).take 1) = none :=
        BufReader.indexOf?_eq_none_iff.mpr fun hmem =>
          hx (List.singleton_inj.mpr (List.mem_singleton.mp hmem).symm)
      rw [if_neg hx, lineFrom_skip hnone (by simp)]
      have hgo := ih (line ++ [x]) r' (by omega) (by omega)
      rwa [hrest] at hgo

theorem le_div_mul_of_dvd {k n size : Nat} (hk : size ∣ k) (hn : k ≤ n) : k ≤ n / size * size := by
  obtain ⟨c, rfl⟩ := hk
  rcases Nat.eq_zero_or_pos size with rfl | hpos
  · simp
  have hc : c ≤ n / size := (Nat.le_div_iff_mul_le hpos).mpr (by rwa [Nat.mul_comm])
  rw [Nat.mul_comm size c]
  exact Nat.mul_le_mul_right size hc

theorem div_mul_le_of_lt {k t size : Nat} (hk : size ∣ k) (ht : t < size) :
    (k + t) / size * size = k := by
  obtain ⟨c, rfl⟩ := hk
  rw [Nat.mul_add_div (by omega), Nat.div_eq_of_lt ht, Nat.add_zero, Nat.mul_comm]

/-- The end of a line, with or without slices before it. -/
theorem bufferedLoop_line (d : UInt8) (max fuel : Nat) (out frag : Bytes) {br br' : BufReader UInt8}
    (h : br.readSlice d = ((frag, none), br')) : bufferedLoop d max (fuel + 1) out br =
      (if max < out.length + (frag.length - 1) then
        .error (.frameTooLarge (out.length + (frag.length - 1)) max)
      else .ok (out ++ frag.take (frag.length - 1)), br') := by
  rw [bufferedLoop, h]
  dsimp only
  by_cases hz : out.length = 0
  · obtain rfl := List.length_eq_zero_iff.mp hz
    rw [if_pos hz, List.length_nil, Nat.zero_add]
    split <;> rfl
  rw [if_neg hz]
  split <;> rfl

theorem bufferedLoop_answers (d : UInt8) (max fuel : Nat) (out : Bytes) (br : BufReader UInt8)
    (hout : out.length ≤ max) (hfuel : max < fuel + out.length) (hwhole : br.size ∣ out.length) :
    Answers (bufferedLoop d max fuel out br) BufReader.pending
        (lineFrom d (max + 1) (fun n => max < n / br.size * br.size) out br.pending) ∧
      (bufferedLoop d max fuel out br).2.size = br.size := by
  induction fuel generalizing out br with
  | zero => omega
  | succ fuel ih =>
    have hpos := br.size_pos
    obtain ⟨br', hslice, hrest, hsize⟩ := br.readSlice_eq d
    cases hidx : indexOf? d (br.pending.take br.size) with
    | some i =>
      have hall := BufReader.indexOf?_mono (List.take_prefix _ _) hidx
      have hlt := BufReader.lt_of_indexOf? hall
      have hline : BufReader.sliceOf d br.size br.pending = (br.pending.take (i + 1), none) := by
        unfold BufReader.sliceOf
        rw [hidx]
      have hlen : (br.pending.take (i + 1)).length = i + 1 := List.length_take_of_le hlt
      rw [hline] at hslice hrest
      rw [bufferedLoop_line d max fuel out _ hslice, hlen, Nat.add_sub_cancel, List.take_take,
        Nat.min_eq_left (Nat.le_succ i)]
      by_cases hmax : max < out.length + i
      · rw [if_pos hmax, lineFrom_overlong hall (by omega)]
        exact ⟨answers_error, hsize⟩
      rw [if_neg hmax, lineFrom_line hall (by omega)]
      rw [hlen] at hrest
      exact ⟨⟨rfl, fun p _ => hrest⟩, hsize⟩
    | none =>
      by_cases hfull : br.size ≤ br.pending.length
      · -- a slice that filled the buffer
        have hline : BufReader.sliceOf d br.size br.pending =
            (br.pending.take br.size, some .bufferFull) := by
          unfold BufReader.sliceOf
          rw [hidx, if_pos hfull]
        have hlen : (br.pending.take br.size).length = br.size := List.length_take_of_le hfull
        have hlen' : (out ++ br.pending.take br.size).length = out.length + br.size := by
          rw [List.length_append, hlen]
        have hwhole' : br.size ∣ (out ++ br.pending.take br.size).length := by
          rw [hlen']
          exact Nat.dvd_add hwhole (Nat.dvd_refl br.size)
        rw [hline] at hslice hrest
        rw [hlen] at hrest
        rw [bufferedLoop, hslice, lineFrom_skip hidx hfull]
        dsimp only
        by_cases hmax : max < (out ++ br.pending.take br.size).length
        · rw [if_pos hmax, lineFrom_full hmax (decide_eq_true
            (hmax.trans_le (le_div_mul_of_dvd hwhole' (Nat.le_add_right _ _))))]
          exact ⟨answers_error, hsize⟩
        rw [if_neg hmax]
        have hgo := ih (out ++ br.pending.take br.size) br' (by omega) (by omega)
          (hsize ▸ hwhole')
        rwa [hrest, hsize] at hgo
      · -- the stream ends before the delimiter
        have htake : br.pending.take br.size = br.pending :=
          List.take_of_length_le (by omega)
        have hline : BufReader.sliceOf d br.size br.pending = (br.pending, some .eof) := by
          unfold BufReader.sliceOf
          rw [hidx, if_neg hfull, htake]
        rw [htake] at hidx
        rw [hline] at hslice
        rw [bufferedLoop, hslice, lineFrom_end hidx]
        · exact ⟨answers_error, hsize⟩
        · rw [div_mul_le_of_lt hwhole (by omega)]
          exact decide_eq_false (by omega)

/-! ### Lines one after another -/

/-- Frames up to the kind of the error. -/
def kinds (x : List Bytes × Option FrameErr) : List Bytes × Option FrameErrKind :=
  (x.1, x.2.map FrameErr.kind)

theorem kinds_readFrame (f : LineFramer) (R : Reader σ UInt8) (fuel : Nat) (r : σ) :
    kinds (untilError (f.readFrame R) fuel r) =
      untilError (plainLine f.delimiter f.maxBytes) fuel (R.pending r) := by
  rw [kinds, ← untilError_mapError]
  have hanswers : ∀ r, Answers (f.readFrame R r) R.pending
      (plainLine f.delimiter f.maxBytes (R.pending r)) := fun r =>
    plainLoop_answers R f.delimiter f.maxBytes _ [] r (Nat.zero_le _) (by simp)
  refine untilError_sim (fun r b => R.pending r = b) ?_ ?_ fuel rfl
  · rintro r _ rfl
    exact (hanswers r).1
  · rintro r _ p rfl hp
    cases hx : (f.readFrame R r).1 with
    | error e => rw [hx] at hp; cases hp
    | ok p' => exact (hanswers r).2 p' hx

theorem kinds_readFrameBuffered (f : LineFramer) (fuel : Nat) (br : BufReader UInt8) :
    kinds (untilError f.readFrameBuffered fuel br) =
      untilError (bufferedLine f.delimiter f.maxBytes br.size) fuel br.pending := by
  rw [kinds, ← untilError_mapError]
  have hanswers : ∀ r : BufReader UInt8, Answers (f.readFrameBuffered r) BufReader.pending
        (bufferedLine f.delimiter f.maxBytes r.size r.pending) ∧
      (f.readFrameBuffered r).2.size = r.size := fun r =>
    bufferedLoop_answers f.delimiter f.maxBytes _ [] r (Nat.zero_le _) (by simp) (by simp)
  refine untilError_sim (fun r b => r.size = br.size ∧ r.pending = b) ?_ ?_ fuel ⟨rfl, rfl⟩
  · rintro r _ ⟨hsize, rfl⟩
    rw [← hsize]
    exact (hanswers r).1.1
  · rintro r _ p ⟨hsize, rfl⟩ hp
    cases hx : (f.readFrameBuffered r).1 with
    | error e => rw [hx] at hp; cases hp
    | ok p' =>
      rw [← hsize]
      exact ⟨(hanswers r).2.trans rfl, (hanswers r).1.2 p' hx⟩

/-- `rest` is what is left of a stream after lines of fewer than `max` bytes. -/
inductive ShortLinesThen (d : UInt8) (max : Nat) : Bytes → Bytes → Prop
  | none (b : Bytes) : ShortLinesThen d max b b
  | line {line b rest : Bytes} (hline : d ∉ line) (hlen : line.length < max)
      (h : ShortLinesThen d max b rest) : ShortLinesThen d max (line ++ d :: b) rest

/-- The first line that is not short is not of `max` bytes exactly; and if there is
none, what follows the last delimiter is no longer than the limit, or the slices of it
that fill the buffer are. -/
structure LimitsAgree (d : UInt8) (max size : Nat) (b : Bytes) : Prop where
  line : ∀ line rest, ShortLinesThen d max b (line ++ d :: rest) → d ∉ line → line.length ≠ max
  tail : ∀ rest, ShortLinesThen d max b rest → d ∉ rest →
    rest.length ≤ max ∨ max < rest.length / size * size

section LimitsAgree

variable {d : UInt8} {max size : Nat} {line b rest : Bytes}

theorem shortLinesThen_line (hline : d ∉ line) (h : ShortLinesThen d max (line ++ d :: b) rest) :
    rest = line ++ d :: b ∨ (line.length < max ∧ ShortLinesThen d max b rest) := by
  generalize hwhole : line ++ d :: b = whole at h
  cases h with
  | none => exact .inl rfl
  | line hline' hlen hrest =>
    obtain ⟨rfl, rfl⟩ := BufReader.append_cons_inj hline hline' hwhole
    exact .inr ⟨hlen, hrest⟩

theorem shortLinesThen_tail (hb : d ∉ b) (h : ShortLinesThen d max b rest) : rest = b := by
  cases h with
  | none => rfl
  | line => exact absurd (List.mem_append_right _ List.mem_cons_self) hb

theorem limitsAgree_short (hline : d ∉ line) (hlen : line.length < max) :
    LimitsAgree d max size (line ++ d :: b) ↔ LimitsAgree d max size b := by
  constructor
  · intro h
    exact ⟨fun l r hs => h.line l r (.line hline hlen hs),
      fun r hs => h.tail r (.line hline hlen hs)⟩
  · intro h
    refine ⟨fun l r hs hl => ?_, fun r hs hr => ?_⟩
    · rcases shortLinesThen_line hline hs with heq | ⟨-, hs⟩
      · obtain ⟨rfl, -⟩ := BufReader.append_cons_inj hl hline heq
        omega
      · exact h.line l r hs hl
    · rcases shortLinesThen_line hline hs with rfl | ⟨-, hs⟩
      · exact absurd (List.mem_append_right _ List.mem_cons_self) hr
      · exact h.tail r hs hr

theorem limitsAgree_long (hline : d ∉ line) (hlen : max ≤ line.length) :
    LimitsAgree d max size (line ++ d :: b) ↔ line.length ≠ max := by
  constructor
  · intro h
    exact h.line line b (.none _) hline
  · intro h
    refine ⟨fun l r hs hl => ?_, fun r hs hr => ?_⟩
    · rcases shortLinesThen_line hline hs with heq | ⟨hlt, -⟩
      · obtain ⟨rfl, -⟩ := BufReader.append_cons_inj hl hline heq
        exact h
      · omega
    · rcases shortLinesThen_line hline hs with rfl | ⟨hlt, -⟩
      · exact absurd (List.mem_append_right _ List.mem_cons_self) hr
      · omega

theorem limitsAgree_tail (hb : d ∉ b) :
    LimitsAgree d max size b ↔ b.length ≤ max ∨ max < b.length / size * size := by
  constructor
  · intro h
    exact h.tail b (.none b) hb
  · intro h
    refine ⟨fun l r hs _ => ?_, fun r hs _ => ?_⟩
    · have heq := shortLinesThen_tail hb hs
      exact absurd (heq ▸ List.mem_append_right l List.mem_cons_self) hb
    · obtain rfl := shortLinesThen_tail hb hs
      exact h

end LimitsAgree

/-- One line: both paths give it, or one of them, or neither. -/
theorem line_cases {d : UInt8} (max size : Nat) {line : Bytes} (hline : d ∉ line) (b : Bytes) :
    plainLine d max (line ++ d :: b) =
        (if line.length < max then (.ok line, b) else (.error .frameTooLarge, [])) ∧
      bufferedLine d max size (line ++ d :: b) =
        (if line.length ≤ max then (.ok line, b) else (.error .frameTooLarge, [])) := by
  have hidx := BufReader.indexOf?_append_cons hline b
  have htake : (line ++ d :: b).take line.length = line := List.take_left
  have hdrop : (line ++ d :: b).drop (line.length + 1) = b := by
    rw [← List.drop_drop, List.drop_left, List.drop_one, List.tail_cons]
  constructor
  · unfold plainLine lineFrom
    rw [hidx]
    simp only [List.length_nil, Nat.zero_add, List.nil_append, htake, hdrop]
  · unfold bufferedLine lineFrom
    rw [hidx]
    simp only [List.length_nil, Nat.zero_add, List.nil_append, htake, hdrop, Nat.lt_succ_iff]

theorem tail_cases {d : UInt8} (max size : Nat) {b : Bytes} (hb : d ∉ b) :
    plainLine d max b = (.error (if max < b.length then .frameTooLarge else .read .eof), []) ∧
      bufferedLine d max size b =
        (.error (if max < b.length / size * size then .frameTooLarge else .read .eof), []) := by
  have hidx := BufReader.indexOf?_eq_none_iff.mpr hb
  constructor
  · unfold plainLine lineFrom
    rw [hidx]
    simp
  · unfold bufferedLine lineFrom
    rw [hidx]
    simp

/-- The two paths agree on a stream as long as their limits do. -/
theorem untilError_agree_iff (d : UInt8) (max size fuel : Nat) (b : Bytes) (h : b.length < fuel) :
    untilError (plainLine d max) fuel b = untilError (bufferedLine d max size) fuel b ↔
      LimitsAgree d max size b := by
  induction fuel generalizing b with
  | zero => omega
  | succ fuel ih =>
    cases hidx : indexOf? d b with
    | some i =>
      obtain ⟨line, rest, rfl, hline, -⟩ := BufReader.split_of_indexOf? hidx
      obtain ⟨hplain, hbuffered⟩ := line_cases max size hline rest
      rw [List.length_append, List.length_cons] at h
      rcases Nat.lt_trichotomy line.length max with hlt | heq | hgt
      · rw [if_pos hlt] at hplain
        rw [if_pos hlt.le] at hbuffered
        rw [untilError_ok (by rw [hplain]), untilError_ok (by rw [hbuffered]),
          hplain, hbuffered, limitsAgree_short hline hlt, ← ih rest (by omega), Prod.ext_iff,
          Prod.ext_iff]
        simp
      · -- the line that only the buffered path takes
        rw [if_neg (by omega)] at hplain
        rw [if_pos heq.le] at hbuffered
        rw [untilError_error (by rw [hplain]),
          untilError_ok (by rw [hbuffered]), limitsAgree_long hline heq.ge]
        simp [heq]
      rw [if_neg (by omega)] at hplain hbuffered
      rw [untilError_error (by rw [hplain]),
        untilError_error (by rw [hbuffered]), limitsAgree_long hline hgt.le]
      simp [hgt.ne']
    | none =>
      have hb := BufReader.indexOf?_eq_none_iff.mp hidx
      obtain ⟨hplain, hbuffered⟩ := tail_cases max size hb
      have hle : b.length / size * size ≤ b.length := Nat.div_mul_le_self _ _
      rw [untilError_error (by rw [hplain]), untilError_error (by rw [hbuffered]),
        limitsAgree_tail hb]
      by_cases hslices : max < b.length / size * size
      · simp [hslices, hslices.trans_le hle]
      by_cases hlong : max < b.length
      · simp [hslices, hlong]
      · simp [hslices, hlong, Nat.le_of_not_lt hlong]

end LineFramer

open LineFramer

/-- **When the line framer reads the same with a buffer and without.**  Both paths come
to an error; the frames before it and its kind are the same exactly if the limits agree
on the stream. -/
theorem lineFramer_agree_iff (f : LineFramer) (size : Nat) (s : Source UInt8) :
    (∃ e, (untilError (f.readFrame Source.reader) (s.pending.length + 1) s).2 = some e) ∧
      (∃ e, (untilError f.readFrameBuffered (s.pending.length + 1) (.new size s)).2 = some e) ∧
      (kinds (untilError (f.readFrame Source.reader) (s.pending.length + 1) s) =
          kinds (untilError f.readFrameBuffered (s.pending.length + 1) (.new size s)) ↔
        LimitsAgree f.delimiter f.maxBytes (max size minReadBufferSize) s.pending) := by
  have hplain := f.kinds_readFrame Source.reader (s.pending.length + 1) s
  have hbuffered := f.kinds_readFrameBuffered (s.pending.length + 1) (.new size s)
  have hends : ∀ {x : List Bytes × Option FrameErr} {limit tooLong},
      kinds x = untilError (lineFrom f.delimiter limit tooLong []) (s.pending.length + 1)
        s.pending → ∃ e, x.2 = some e := by
    intro x limit tooLong hx
    obtain ⟨k, hk⟩ := lineFrom_ends f.delimiter limit tooLong s.pending
    rw [← hx] at hk
    obtain ⟨e, he, -⟩ := Option.map_eq_some_iff.mp hk
    exact ⟨e, he⟩
  refine ⟨hends hplain, hends hbuffered, ?_⟩
  rw [hplain, hbuffered]
  exact untilError_agree_iff _ _ _ _ _ (Nat.lt_succ_self _)

/-- A line of two bytes under a limit of two. -/
def lineAtLimit : Chunk UInt8 := ⟨[0x61, 0x62, 0x0A], List.cons_ne_nil _ _⟩

theorem lineAtLimit_disagrees :
    kinds (untilError ((⟨2, 0⟩ : LineFramer).readFrame Source.reader) 4 ⟨[lineAtLimit]⟩) =
        ([], some .frameTooLarge) ∧
      kinds (untilError (⟨2, 0⟩ : LineFramer).readFrameBuffered 4 (.new 16 ⟨[lineAtLimit]⟩)) =
        ([[0x61, 0x62]], some (.read .eof)) := by
  decide +kernel

/-! ### The other framers -/

theorem FixedSizeFramer.untilError_readFrame (f : FixedSizeFramer) (R : Reader σ UInt8)
    (fuel : Nat) {r : σ} {s : Source UInt8} (h : R.pending r = s.pending) :
    untilError (f.readFrame R) fuel r = untilError (f.readFrame Source.reader) fuel s := by
  have hframe : ∀ r (s : Source UInt8), R.pending r = s.pending →
      (f.readFrame R r).1 = (f.readFrame Source.reader s).1 ∧
        R.pending (f.readFrame R r).2 = (f.readFrame Source.reader s).2.pending := by
    intro r s h
    unfold readFrame
    split
    · exact ⟨rfl, h⟩
    obtain ⟨r', hr, hrest⟩ := R.readFull_eq f.size.toNat r
    obtain ⟨s', hs, hleft⟩ := Source.reader.readFull_eq f.size.toNat s
    rw [hr, hs, h]
    rw [h] at hrest
    exact ⟨rfl, hrest.trans hleft.symm⟩
  exact untilError_sim (fun r s => R.pending r = s.pending)
    (fun r s h => (hframe r s h).1) (fun r s _ h _ => (hframe r s h).2) fuel h

/-- `ReadBufferBytes` is invisible to the read loop of a session whose framer is not the
line framer. -/
theorem readBuffer_invisible {f : Framer} (hf : ∀ l, f ≠ .line l) (readBufferBytes : Int)
    (conn : Source UInt8) : frames f readBufferBytes conn = frames f 0 conn := by
  unfold frames
  split
  · rename_i hbuffered
    cases f with
    | lengthPrefix f => exact f.untilError_new readBufferBytes.toNat conn _
    | line l => exact absurd rfl (hf l)
    | fixedSize f => exact f.untilError_readFrame BufReader.reader _ rfl
    | raw f => cases hbuffered.2
  · rfl

theorem readBuffer_invisible_lineAtLimit :
    frames (.fixedSize ⟨2⟩) 16 ⟨[lineAtLimit]⟩ = frames (.fixedSize ⟨2⟩) 0 ⟨[lineAtLimit]⟩ :=
  readBuffer_invisible (by simp) 16 _

end SharkSocket.Tcp
