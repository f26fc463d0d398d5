import Mathlib.Data.List.Basic
import Mathlib.Order.Lattice
import Mathlib.Tactic.Common

/-!
# Streams in pieces

A `Source` hands out its elements in non-empty pieces, as a connection does: a
read gets at most one piece, and the end of the stream is a read that gets
nothing.  A `Reader` is anything that can be read that way, with the elements
still to come as its `pending` list.  What `readFull` returns is a function of
the pending list alone, so it does not depend on the pieces.

`BufReader` is Go's `bufio.Reader` over a source.  `peek`, `readSlice` and `read`
are the loops of the Go code; their `_eq` lemmas give the result in terms of the
pending list.

`untilError` reads items one after another until one cannot be read.  Two ways of
reading that agree on one item agree on all of them (`untilError_sim`).

`BufWriter` is Go's `bufio.Writer`: what a write passes on, followed by what it
keeps, is what was kept before, followed by what is written (`write_append`).
-/

namespace SharkSocket.Lib

variable {α σ : Type*}

inductive ReadErr
  | eof
  | unexpectedEOF
  | bufferFull
  deriving DecidableEq, Repr

/-! ### Sources -/

abbrev Chunk (α : Type*) := { l : List α // l ≠ [] }

structure Source (α : Type*) where
  chunks : List (Chunk α)

variable {l : List α} {n : Nat}

theorem drop_ne_nil (h : ¬ l.length ≤ n) : l.drop n ≠ [] :=
  fun hnil => h (List.drop_eq_nil_iff.mp hnil)

namespace Source

def pending (s : Source α) : List α := (s.chunks.map Subtype.val).flatten

/-- At most `n` elements of the first piece. -/
def read (n : Nat) (s : Source α) : List α × Source α :=
  match s.chunks with
  | [] => ([], s)
  | c :: rest =>
    if h : c.val.length ≤ n then (c.val, ⟨rest⟩)
    else (c.val.take n, ⟨⟨c.val.drop n, drop_ne_nil h⟩ :: rest⟩)

variable (n : Nat) (s : Source α)

theorem read_append : (s.read n).1 ++ (s.read n).2.pending = s.pending := by
  obtain ⟨chunks⟩ := s
  cases chunks with
  | nil => rfl
  | cons c rest =>
    unfold read
    dsimp only
    split
    · rfl
    simp only [pending, List.map_cons, List.flatten_cons]
    rw [← List.append_assoc, List.take_append_drop]

theorem read_le : (s.read n).1.length ≤ n := by
  unfold read
  split
  · exact Nat.zero_le n
  split
  · assumption
  · exact List.length_take_le n _

theorem read_ne (hn : 0 < n) (h : s.pending ≠ []) : (s.read n).1 ≠ [] := by
  obtain ⟨chunks⟩ := s
  cases chunks with
  | nil => exact absurd rfl h
  | cons c rest =>
    unfold read
    dsimp only
    split
    · exact c.property
    intro hnil
    rcases List.take_eq_nil_iff.mp hnil with hz | hz
    · omega
    · exact c.property hz

end Source

/-! ### Readers -/

structure Reader (σ α : Type*) where
  read : Nat → σ → List α × σ
  pending : σ → List α
  read_append : ∀ n s, (read n s).1 ++ pending (read n s).2 = pending s
  read_le : ∀ n s, (read n s).1.length ≤ n
  read_ne : ∀ n s, 0 < n → pending s ≠ [] → (read n s).1 ≠ []

def Source.reader : Reader (Source α) α where
  read := Source.read
  pending := Source.pending
  read_append := Source.read_append
  read_le := Source.read_le
  read_ne := Source.read_ne

namespace Reader

variable (R : Reader σ α)

theorem read_eq_take (n : Nat) (s : σ) : (R.read n s).1 = (R.pending s).take (R.read n s).1.length ∧
      R.pending (R.read n s).2 = (R.pending s).drop (R.read n s).1.length := by
  have happ := R.read_append n s
  rw [← happ]
  exact ⟨by rw [List.take_left], by rw [List.drop_left]⟩

/-- The loop of `io.ReadFull`: until `n` elements are there or the stream ends. -/
def readUpTo : Nat → Nat → σ → List α × σ
  | 0, _, s => ([], s)
  | fuel + 1, n, s =>
    if n = 0 then ([], s)
    else if (R.read n s).1 = [] then ([], (R.read n s).2)
    else
      let r := readUpTo fuel (n - (R.read n s).1.length) (R.read n s).2
      ((R.read n s).1 ++ r.1, r.2)

theorem readUpTo_eq (fuel n : Nat) (s : σ) (h : n ≤ fuel) :
    (R.readUpTo fuel n s).1 = (R.pending s).take n ∧
      R.pending (R.readUpTo fuel n s).2 = (R.pending s).drop n := by
  induction fuel generalizing n s with
  | zero =>
    obtain rfl : n = 0 := by omega
    simp [readUpTo]
  | succ fuel ih =>
    rw [readUpTo]
    split
    · rename_i hzero
      subst hzero
      simp
    obtain ⟨htake, hdrop⟩ := R.read_eq_take n s
    have hle := R.read_le n s
    split
    · rename_i hnil
      -- nothing was read, so nothing was there
      have hempty : R.pending s = [] := by
        by_contra hne
        exact R.read_ne n s (by omega) hne hnil
      have happ := R.read_append n s
      rw [hnil, List.nil_append] at happ
      rw [happ, hempty]
      simp
    · rename_i hne
      have hlen : 0 < (R.read n s).1.length := List.length_pos_iff.mpr hne
      obtain ⟨ht, hd⟩ := ih (n - (R.read n s).1.length) (R.read n s).2 (by omega)
      have hsum : (R.read n s).1.length + (n - (R.read n s).1.length) = n := by omega
      refine ⟨?_, ?_⟩
      · dsimp only
        rw [ht, hdrop, ← hsum, List.take_add, ← htake, hsum]
      · rw [hd, hdrop, List.drop_drop, hsum]

/-- `io.ReadFull`. -/
def readFull (n : Nat) (s : σ) : Except ReadErr (List α) × σ :=
  let r := R.readUpTo n n s
  (if r.1.length = n then .ok r.1
    else if r.1.length = 0 then .error .eof
    else .error .unexpectedEOF, r.2)

/-- What `io.ReadFull` makes of the elements to come. -/
def fullOf (n : Nat) (l : List α) : Except ReadErr (List α) :=
  if n ≤ l.length then .ok (l.take n)
  else if l.length = 0 then .error .eof
  else .error .unexpectedEOF

theorem fullOf_ok {l full : List α} (h : fullOf n l = .ok full) :
    n ≤ l.length ∧ full = l.take n := by
  unfold fullOf at h
  split_ifs at h with hn
  cases h
  exact ⟨hn, rfl⟩

theorem readFull_eq (n : Nat) (s : σ) :
    ∃ s', R.readFull n s = (fullOf n (R.pending s), s') ∧ R.pending s' = (R.pending s).drop n := by
  obtain ⟨ht, hd⟩ := R.readUpTo_eq n n s le_rfl
  refine ⟨(R.readUpTo n n s).2, ?_, hd⟩
  unfold readFull fullOf
  dsimp only
  rw [ht, List.length_take]
  by_cases hn : n ≤ (R.pending s).length
  · rw [if_pos (by omega), if_pos hn]
  rw [if_neg (by omega), if_neg hn]
  by_cases hz : (R.pending s).length = 0
  · rw [if_pos (by omega), if_pos hz]
  · rw [if_neg (by omega), if_neg hz]

/-- What every read keeps, `io.ReadFull` keeps. -/
theorem readFull_inv {I : σ → Prop} (h : ∀ n s, I s → I (R.read n s).2) (n : Nat) {s : σ}
    (hs : I s) : I (R.readFull n s).2 := by
  have hloop : ∀ fuel n s, I s → I (R.readUpTo fuel n s).2 := by
    intro fuel
    induction fuel with
    | zero =>
      intro n s hs
      exact hs
    | succ fuel ih =>
      intro n s hs
      rw [readUpTo]
      split
      · exact hs
      split
      · exact h n s hs
      · exact ih _ _ (h n s hs)
  exact hloop n n s hs

/-- Reads of the given sizes, one after another. -/
def drain : List Nat → σ → List (List α) × σ
  | [], s => ([], s)
  | n :: ns, s =>
    let r := drain ns (R.read n s).2
    ((R.read n s).1 :: r.1, r.2)

theorem drain_append (ns : List Nat) (s : σ) :
    (R.drain ns s).1.flatten ++ R.pending (R.drain ns s).2 = R.pending s := by
  induction ns generalizing s with
  | nil => rfl
  | cons n ns ih => rw [drain, List.flatten_cons, List.append_assoc, ih, R.read_append]

/-- Enough reads get everything. -/
theorem drain_all (ns : List Nat) (s : σ) (hpos : ∀ n ∈ ns, 0 < n)
    (hlen : (R.pending s).length ≤ ns.length) : (R.drain ns s).1.flatten = R.pending s := by
  induction ns generalizing s with
  | nil =>
    have hnil : R.pending s = [] := List.length_eq_zero_iff.mp (Nat.le_zero.mp hlen)
    rw [hnil]
    rfl
  | cons n ns ih =>
    have happ := R.read_append n s
    have hrest : (R.pending (R.read n s).2).length ≤ ns.length := by
      by_cases hne : R.pending s = []
      · have hsum := congrArg List.length happ
        rw [List.length_append, hne] at hsum
        simp only [List.length_nil] at hsum
        omega
      have hread := R.read_ne n s (hpos n List.mem_cons_self) hne
      have hlt : 0 < (R.read n s).1.length := List.length_pos_iff.mpr hread
      have hsum := congrArg List.length happ
      rw [List.length_append] at hsum
      rw [List.length_cons] at hlen
      omega
    rw [drain, List.flatten_cons, ih _ (fun m hm => hpos m (List.mem_cons_of_mem n hm)) hrest, happ]

end Reader

/-! ### `bufio.Reader` -/

structure BufReader (α : Type*) where
  size : Nat
  size_pos : 0 < size
  buf : List α
  buf_le : buf.length ≤ size
  src : Source α

def minReadBufferSize : Nat := 16

namespace BufReader

/-- `bufio.NewReaderSize`. -/
def new (size : Nat) (src : Source α) : BufReader α where
  size := max size minReadBufferSize
  size_pos := Nat.lt_of_lt_of_le (Nat.succ_pos 15) (Nat.le_max_right _ _)
  buf := []
  buf_le := Nat.zero_le _
  src := src

def pending (r : BufReader α) : List α := r.buf ++ r.src.pending

@[simp] theorem pending_new (size : Nat) (src : Source α) : (new size src).pending = src.pending :=
  rfl

/-- The reader after the first `n` buffered elements. -/
def advance (r : BufReader α) (n : Nat) : BufReader α where
  size := r.size
  size_pos := r.size_pos
  buf := r.buf.drop n
  buf_le := Nat.le_trans (List.drop_sublist n r.buf).length_le r.buf_le
  src := r.src

theorem pending_advance (r : BufReader α) (h : n ≤ r.buf.length) :
    (r.advance n).pending = r.pending.drop n := by
  unfold pending advance
  rw [List.drop_append_of_le_length h]

theorem fill_le (r : BufReader α) :
    (r.buf ++ (r.src.read (r.size - r.buf.length)).1).length ≤ r.size := by
  have hread := Source.read_le (r.size - r.buf.length) r.src
  have hbuf := r.buf_le
  rw [List.length_append]
  omega

/-- `fill`: one read into the free part of the buffer; `none` at the end. -/
def fill (r : BufReader α) : Option (BufReader α) :=
  match (r.src.read (r.size - r.buf.length)).1 with
  | [] => none
  | _ :: _ =>
    some ⟨r.size, r.size_pos, r.buf ++ (r.src.read (r.size - r.buf.length)).1, fill_le r,
      (r.src.read (r.size - r.buf.length)).2⟩

theorem fill_some {r r' : BufReader α} (h : r.fill = some r') :
    r'.pending = r.pending ∧ r'.size = r.size ∧ r.buf.length < r'.buf.length ∧
      ∃ l, r'.buf = r.buf ++ l := by
  have happ := Source.read_append (r.size - r.buf.length) r.src
  unfold fill at h
  split at h
  · cases h
  rename_i a l hl
  cases h
  refine ⟨?_, rfl, ?_, _, rfl⟩
  · unfold pending
    rw [List.append_assoc, happ]
  · rw [List.length_append, hl, List.length_cons]
    omega

variable {r : BufReader α}

theorem fill_none (h : r.fill = none) (hfree : r.buf.length < r.size) : r.pending = r.buf := by
  unfold fill at h
  split at h
  · rename_i hnil
    have hempty : r.src.pending = [] := by
      by_contra hne
      exact Source.read_ne _ r.src (by omega) hne hnil
    rw [pending, hempty, List.append_nil]
  · cases h

/-! `Peek` -/

def peekLoop : Nat → Nat → BufReader α → BufReader α
  | 0, _, r => r
  | fuel + 1, n, r =>
    if r.buf.length < n ∧ r.buf.length < r.size then
      match r.fill with
      | none => r
      | some r' => peekLoop fuel n r'
    else r

def peek (n : Nat) (r : BufReader α) : Except ReadErr (List α) × BufReader α :=
  let r := peekLoop n n r
  if r.size < n then (.error .bufferFull, r)
  else if r.buf.length < n then (.error .eof, r)
  else (.ok (r.buf.take n), r)

theorem peekLoop_eq (fuel n : Nat) (r : BufReader α) (hfuel : n ≤ fuel + r.buf.length)
    (hn : n ≤ r.size) :
    (peekLoop fuel n r).pending = r.pending ∧ (peekLoop fuel n r).size = r.size ∧
      (n ≤ (peekLoop fuel n r).buf.length ∨ (peekLoop fuel n r).buf = r.pending) := by
  induction fuel generalizing r with
  | zero =>
    rw [peekLoop]
    exact ⟨rfl, rfl, .inl (by omega)⟩
  | succ fuel ih =>
    rw [peekLoop]
    split
    · rename_i hlt
      cases hfill : r.fill with
      | none => exact ⟨rfl, rfl, .inr (fill_none hfill hlt.2).symm⟩
      | some r' =>
        obtain ⟨hpend, hsize, hgrow, -⟩ := fill_some hfill
        have hr := ih r' (by omega) (by rw [hsize]; exact hn)
        rwa [hpend, hsize] at hr
    · exact ⟨rfl, rfl, .inl (by omega)⟩

/-- What `Peek` makes of the elements to come. -/
def peekOf (n : Nat) (l : List α) : Except ReadErr (List α) :=
  if n ≤ l.length then .ok (l.take n) else .error .eof

theorem peekOf_ok {l head : List α} (h : peekOf n l = .ok head) :
    n ≤ l.length ∧ head = l.take n := by
  unfold peekOf at h
  split_ifs at h with hn
  cases h
  exact ⟨hn, rfl⟩

theorem prefix_pending (r : BufReader α) : r.buf <+: r.pending := List.prefix_append _ _

theorem take_buf (h : n ≤ r.buf.length) : r.buf.take n = r.pending.take n := by
  rw [pending, List.take_append_of_le_length h]

theorem peek_eq (hn : n ≤ r.size) :
    ∃ r', r.peek n = (peekOf n r.pending, r') ∧ r'.pending = r.pending ∧ r'.size = r.size ∧
      (n ≤ r'.buf.length ∨ r'.buf = r.pending) := by
  obtain ⟨hpend, hsize, hend⟩ := peekLoop_eq n n r (by omega) hn
  have hle := (prefix_pending (peekLoop n n r)).length_le
  rw [hpend] at hle
  refine ⟨peekLoop n n r, ?_, hpend, hsize, hend⟩
  unfold peek peekOf
  rw [if_neg (by omega)]
  split
  · have hall : (peekLoop n n r).buf = r.pending := hend.resolve_left (by omega)
    rw [if_neg (by rw [← hall]; omega)]
  · rw [if_pos (by omega), take_buf (by omega), hpend]

/-! `Discard` -/

def discardLoop : Nat → Nat → BufReader α → Except ReadErr Unit × BufReader α
  | 0, _, r => (.error .eof, r)
  | fuel + 1, n, r =>
    if n ≤ r.buf.length then (.ok (), r.advance n)
    else
      match (r.advance r.buf.length).fill with
      | none => (.error .eof, r.advance r.buf.length)
      | some r' => discardLoop fuel (n - r.buf.length) r'

def discard (n : Nat) (r : BufReader α) : Except ReadErr Unit × BufReader α :=
  discardLoop (n + 1) n r

theorem discard_buffered (h : n ≤ r.buf.length) : r.discard n = (.ok (), r.advance n) := by
  rw [discard, discardLoop, if_pos h]

/-! `ReadSlice` -/

section ReadSlice

variable [DecidableEq α]

def indexOf? (d : α) (l : List α) : Option Nat := l.findIdx? (· = d)

def readSliceLoop (d : α) : Nat → BufReader α → (List α × Option ReadErr) × BufReader α
  | 0, r => ((r.buf, some .bufferFull), r.advance r.buf.length)
  | fuel + 1, r =>
    match indexOf? d r.buf with
    | some i => ((r.buf.take (i + 1), none), r.advance (i + 1))
    | none =>
      if r.size ≤ r.buf.length then ((r.buf, some .bufferFull), r.advance r.buf.length)
      else
        match r.fill with
        | none => ((r.buf, some .eof), r.advance r.buf.length)
        | some r' => readSliceLoop d fuel r'

/-- `ReadSlice`: the elements up to the delimiter, or what there was and why. -/
def readSlice (d : α) (r : BufReader α) : (List α × Option ReadErr) × BufReader α :=
  readSliceLoop d (r.size + 1) r

/-- What `ReadSlice` makes of the elements to come. -/
def sliceOf (d : α) (size : Nat) (l : List α) : List α × Option ReadErr :=
  match indexOf? d (l.take size) with
  | some i => (l.take (i + 1), none)
  | none => (l.take size, some (if size ≤ l.length then .bufferFull else .eof))

variable {d : α}

variable {i : Nat}

theorem lt_of_indexOf? (h : indexOf? d l = some i) : i < l.length := by
  unfold indexOf? at h
  rw [List.findIdx?_eq_some_iff_getElem] at h
  exact h.1

theorem indexOf?_eq_none_iff : indexOf? d l = none ↔ d ∉ l := by
  unfold indexOf?
  rw [List.findIdx?_eq_none_iff]
  constructor
  · intro h hmem
    exact of_decide_eq_false (h d hmem) rfl
  · intro h x hx
    exact decide_eq_false fun heq => h (heq ▸ hx)

/-- The index of the first delimiter. -/
theorem indexOf?_append_cons {line : List α} (h : d ∉ line) (rest : List α) :
    indexOf? d (line ++ d :: rest) = some line.length := by
  have hnone := indexOf?_eq_none_iff.mpr h
  unfold indexOf? at hnone ⊢
  rw [List.findIdx?_append, hnone, List.findIdx?_cons]
  simp

/-- A list is cut at its first delimiter in one way only. -/
theorem append_cons_inj {l m rest rest' : List α} (hl : d ∉ l) (hm : d ∉ m)
    (h : l ++ d :: rest = m ++ d :: rest') : l = m ∧ rest = rest' := by
  have hlen : l.length = m.length := by
    have hidx := indexOf?_append_cons hl rest
    rw [h, indexOf?_append_cons hm] at hidx
    exact (Option.some.inj hidx).symm
  obtain ⟨rfl, hrest⟩ := List.append_inj h hlen
  exact ⟨rfl, List.tail_eq_of_cons_eq hrest⟩

theorem indexOf?_drop (h : indexOf? d (l.take n) = none) (hn : n ≤ l.length) :
    indexOf? d l = (indexOf? d (l.drop n)).map (· + n) := by
  conv_lhs => rw [← List.take_append_drop n l]
  unfold indexOf? at h ⊢
  rw [List.findIdx?_append, h, List.length_take_of_le hn]
  rfl

theorem split_of_indexOf? (h : indexOf? d l = some i) :
    ∃ line rest, l = line ++ d :: rest ∧ d ∉ line ∧ line.length = i := by
  have hlt := lt_of_indexOf? h
  unfold indexOf? at h
  rw [List.findIdx?_eq_some_iff_getElem] at h
  obtain ⟨_, hat, hbefore⟩ := h
  refine ⟨l.take i, l.drop (i + 1), ?_, ?_, List.length_take_of_le hlt.le⟩
  · have hd : l[i] = d := of_decide_eq_true hat
    rw [← hd, List.getElem_cons_drop, List.take_append_drop]
  · intro hmem
    obtain ⟨j, hj, hjd⟩ := List.mem_take_iff_getElem.mp hmem
    exact hbefore j (by omega) (decide_eq_true hjd)

/-- The first delimiter of a prefix is the first of the list. -/
theorem indexOf?_mono {l m : List α} (hp : l <+: m) (h : indexOf? d l = some i) :
    indexOf? d m = some i := by
  obtain ⟨t, rfl⟩ := hp
  unfold indexOf? at h ⊢
  rw [List.findIdx?_append, h]
  rfl

/-- Without an error the slice is the line with its delimiter. -/
theorem sliceOf_line {size : Nat} (h : (sliceOf d size l).2 = none) :
    ∃ line rest, l = line ++ d :: rest ∧ d ∉ line ∧ (sliceOf d size l).1 = line ++ [d] := by
  unfold sliceOf at h ⊢
  cases hidx : indexOf? d (l.take size) with
  | none =>
    rw [hidx] at h
    cases h
  | some i =>
    obtain ⟨line, rest, hl, hline, rfl⟩ :=
      split_of_indexOf? (indexOf?_mono (List.take_prefix size l) hidx)
    refine ⟨line, rest, hl, hline, ?_⟩
    dsimp only
    rw [hl, List.take_length_add_append]
    rfl

theorem readSliceLoop_eq (d : α) (fuel : Nat) (r : BufReader α)
    (hfuel : r.size < fuel + r.buf.length) :
    ∃ r', readSliceLoop d fuel r = (sliceOf d r.size r.pending, r') ∧
      r'.pending = r.pending.drop (sliceOf d r.size r.pending).1.length ∧ r'.size = r.size := by
  induction fuel generalizing r with
  | zero =>
    have hbuf := r.buf_le
    omega
  | succ fuel ih =>
    have hbuf := r.buf_le
    have hle := (prefix_pending r).length_le
    have hpre : r.buf <+: r.pending.take r.size :=
      List.prefix_take_iff.mpr ⟨prefix_pending r, hbuf⟩
    rw [readSliceLoop]
    cases hidx : indexOf? d r.buf with
    | some i =>
      have hlt := lt_of_indexOf? hidx
      have hslice : sliceOf d r.size r.pending = (r.pending.take (i + 1), none) := by
        unfold sliceOf
        rw [indexOf?_mono hpre hidx]
      rw [hslice]
      refine ⟨r.advance (i + 1), ?_, ?_, rfl⟩
      · dsimp only
        rw [take_buf (by omega)]
      · rw [pending_advance r (by omega), List.length_take, Nat.min_eq_left (by omega)]
    | none =>
      dsimp only
      split
      · -- the buffer is full, so it is the part that counts
        have hlen : r.buf.length = r.size := by omega
        have htake : r.pending.take r.size = r.buf := by
          rw [← hlen, ← take_buf le_rfl, List.take_length]
        have hslice : sliceOf d r.size r.pending = (r.buf, some .bufferFull) := by
          unfold sliceOf
          rw [htake, hidx, if_pos (by omega)]
        rw [hslice]
        exact ⟨_, rfl, pending_advance r le_rfl, rfl⟩
      · rename_i hfree
        cases hfill : r.fill with
        | none =>
          have hall := fill_none hfill (by omega)
          have hslice : sliceOf d r.size r.pending = (r.buf, some .eof) := by
            unfold sliceOf
            rw [hall, List.take_of_length_le (by omega), hidx, if_neg hfree]
          rw [hslice]
          exact ⟨_, rfl, pending_advance r le_rfl, rfl⟩
        | some r' =>
          obtain ⟨hpend, hsize, hgrow, -⟩ := fill_some hfill
          have hr := ih r' (by omega)
          rwa [hpend, hsize] at hr

theorem readSlice_eq (d : α) (r : BufReader α) :
    ∃ r', r.readSlice d = (sliceOf d r.size r.pending, r') ∧
      r'.pending = r.pending.drop (sliceOf d r.size r.pending).1.length ∧ r'.size = r.size :=
  readSliceLoop_eq d (r.size + 1) r (by omega)

end ReadSlice

/-! `Read` -/

theorem drop_le_size (n : Nat) : ((r.src.read r.size).1.drop n).length ≤ r.size :=
  Nat.le_trans (List.drop_sublist n _).length_le (Source.read_le r.size r.src)

/-- `Read`: from the buffer if it has anything, else one read of the source, past
the buffer when there is room for more than the buffer holds. -/
def read (n : Nat) (r : BufReader α) : List α × BufReader α :=
  if n = 0 then ([], r)
  else
    match r.buf with
    | [] =>
      if r.size ≤ n then
        ((r.src.read n).1, ⟨r.size, r.size_pos, [], Nat.zero_le r.size, (r.src.read n).2⟩)
      else
        ((r.src.read r.size).1.take n,
          ⟨r.size, r.size_pos, (r.src.read r.size).1.drop n, drop_le_size n, (r.src.read r.size).2⟩)
    | _ :: _ => (r.buf.take n, r.advance n)

variable (n : Nat) (r : BufReader α)

theorem size_read : (r.read n).2.size = r.size := by
  unfold read
  split
  · rfl
  split
  · split <;> rfl
  · rfl

theorem read_append : (r.read n).1 ++ (r.read n).2.pending = r.pending := by
  unfold read
  split
  · rfl
  split
  · rename_i hbuf
    have hpend : r.pending = r.src.pending := by rw [pending, hbuf, List.nil_append]
    rw [hpend]
    split
    · exact Source.read_append n r.src
    rw [← Source.read_append r.size r.src]
    unfold pending
    rw [← List.append_assoc, List.take_append_drop]
  unfold pending advance
  rw [← List.append_assoc, List.take_append_drop]

theorem read_le : (r.read n).1.length ≤ n := by
  unfold read
  split
  · exact Nat.zero_le n
  split
  · split
    · exact Source.read_le n r.src
    · exact List.length_take_le n _
  · exact List.length_take_le n _

theorem read_ne (hn : 0 < n) (h : r.pending ≠ []) : (r.read n).1 ≠ [] := by
  unfold read
  rw [if_neg (by omega)]
  split
  · rename_i hbuf
    have hsrc : r.src.pending ≠ [] := by rwa [pending, hbuf] at h
    split
    · exact Source.read_ne n r.src hn hsrc
    intro hnil
    rcases List.take_eq_nil_iff.mp hnil with hz | hz
    · omega
    · exact Source.read_ne r.size r.src r.size_pos hsrc hz
  rename_i hbuf
  intro hnil
  rcases List.take_eq_nil_iff.mp hnil with hz | hz
  · omega
  rw [hbuf] at hz
  cases hz

def reader : Reader (BufReader α) α where
  read := read
  pending := pending
  read_append := read_append
  read_le := read_le
  read_ne := read_ne

theorem readFull_eq :
    ∃ r', reader.readFull n r = (Reader.fullOf n r.pending, r') ∧ r'.pending = r.pending.drop n ∧
      r'.size = r.size := by
  obtain ⟨r', hres, hrest⟩ := reader.readFull_eq n r
  have hsize := reader.readFull_inv
    (fun k x hx => (x.size_read k).trans hx) n (s := r) rfl
  rw [hres] at hsize
  exact ⟨r', hres, hrest, hsize⟩

end BufReader

/-! ### `bufio.Writer` -/

structure BufWriter (α : Type*) where
  size : Nat
  buf : List α
  buf_le : buf.length ≤ size

namespace BufWriter

/-- `bufio.NewWriterSize` for a positive size. -/
def new (size : Nat) : BufWriter α := ⟨size, [], Nat.zero_le size⟩

/-- `Flush`: what it passes on, and the writer after it. -/
def flush (w : BufWriter α) : List α × BufWriter α := (w.buf, new w.size)

theorem append_le {w : BufWriter α} {p : List α} (h : ¬ w.size - w.buf.length < p.length) :
    (w.buf ++ p).length ≤ w.size := by
  have hle := w.buf_le
  rw [List.length_append]
  omega

/-- The loop of `Write`.  A write into an empty buffer that is too small goes straight
through; otherwise the buffer is filled up and flushed, so there is at most one more
turn. -/
def writeLoop : Nat → List α → BufWriter α → List α × BufWriter α
  | 0, p, w => (p, w)
  | turns + 1, p, w =>
    if h : w.size - w.buf.length < p.length then
      match w.buf with
      | [] => (p, w)
      | _ :: _ =>
        let n := w.size - w.buf.length
        let r := writeLoop turns (p.drop n) (new w.size)
        (w.buf ++ p.take n ++ r.1, r.2)
    else ([], ⟨w.size, w.buf ++ p, append_le h⟩)

/-- `Write`. -/
def write (p : List α) (w : BufWriter α) : List α × BufWriter α := writeLoop 2 p w

theorem writeLoop_append (turns : Nat) (p : List α) (w : BufWriter α) (h : w.buf = [] ∨ 0 < turns) :
    (writeLoop turns p w).1 ++ (writeLoop turns p w).2.buf = w.buf ++ p := by
  induction turns generalizing p w with
  | zero =>
    have hnil : w.buf = [] := h.resolve_right (Nat.lt_irrefl 0)
    rw [writeLoop, hnil, List.append_nil, List.nil_append]
  | succ turns ih =>
    rw [writeLoop]
    split
    · split
      · rename_i hnil
        rw [hnil, List.append_nil, List.nil_append]
      rw [List.append_assoc, ih _ (new w.size) (.inl rfl), new, List.nil_append,
        List.append_assoc, List.take_append_drop]
    · rfl

theorem write_append (p : List α) (w : BufWriter α) :
    (w.write p).1 ++ (w.write p).2.buf = w.buf ++ p :=
  writeLoop_append 2 p w (.inr Nat.two_pos)

end BufWriter

/-! ### One item after another -/

section UntilError

variable {τ ε β : Type*}

/-- The items read until the first error, and that error. -/
def untilError (next : σ → Except ε β × σ) : Nat → σ → List β × Option ε
  | 0, _ => ([], none)
  | fuel + 1, s =>
    match next s with
    | (.error e, _) => ([], some e)
    | (.ok b, s) => (b :: (untilError next fuel s).1, (untilError next fuel s).2)

variable {next : σ → Except ε β × σ} {step : τ → Except ε β × τ}

variable {e : ε} {s : σ} {write : β → List α}

theorem untilError_error (h : (next s).1 = .error e) (fuel : Nat) :
    untilError next (fuel + 1) s = ([], some e) := by
  unfold untilError
  generalize next s = r at h
  obtain ⟨answer, s'⟩ := r
  cases h
  rfl

theorem untilError_ok {b : β} (h : (next s).1 = .ok b) (fuel : Nat) : untilError next (fuel + 1) s =
      (b :: (untilError next fuel (next s).2).1, (untilError next fuel (next s).2).2) := by
  rw [untilError]
  generalize next s = r at h
  obtain ⟨answer, s'⟩ := r
  cases h
  rfl

theorem untilError_mapError {ε' : Type*} (g : ε → ε') (fuel : Nat) (s : σ) :
    untilError (fun s => ((next s).1.mapError g, (next s).2)) fuel s =
      ((untilError next fuel s).1, (untilError next fuel s).2.map g) := by
  induction fuel generalizing s with
  | zero => rfl
  | succ fuel ih =>
    cases hnext : (next s).1 with
    | error e =>
      rw [untilError_error hnext, untilError_error (by rw [hnext]; rfl)]
      rfl
    | ok b => rw [untilError_ok hnext, untilError_ok (by rw [hnext]; rfl), ih]

/-- Answers that agree, and states that go on agreeing while there is no error. -/
theorem untilError_sim (view : σ → τ → Prop) (hanswer : ∀ s t, view s t → (next s).1 = (step t).1)
    (hview : ∀ s t b, view s t → (next s).1 = .ok b → view (next s).2 (step t).2) (fuel : Nat)
    {t : τ} (h : view s t) : untilError next fuel s = untilError step fuel t := by
  induction fuel generalizing s t with
  | zero => rfl
  | succ fuel ih =>
    have hsame := hanswer s t h
    cases hnext : (next s).1 with
    | error e => rw [untilError_error hnext, untilError_error (hsame ▸ hnext)]
    | ok b => rw [untilError_ok hnext, untilError_ok (hsame ▸ hnext), ih (hview s t b h hnext)]

/-- If every item takes something of a finite supply, there is an error in the end. -/
theorem untilError_ends (left : σ → Nat)
    (hless : ∀ s b, (next s).1 = .ok b → left (next s).2 < left s) (fuel : Nat) (h : left s < fuel) :
    ∃ e, (untilError next fuel s).2 = some e := by
  induction fuel generalizing s with
  | zero => omega
  | succ fuel ih =>
    cases hnext : (next s).1 with
    | error e => exact ⟨e, by rw [untilError_error hnext]⟩
    | ok b =>
      have hlt := hless s b hnext
      rw [untilError_ok hnext]
      exact ih (by omega)

/-- Items laid end to end are read back one by one, if the form of an item says where
it ends, and then comes the error of what is behind them. -/
theorem untilError_flatMap_append {next : List α → Except ε β × List α} {tail : List α}
    (hend : (next tail).1 = .error e) :
    ∀ (items : List β), (∀ b ∈ items, ∀ rest, next (write b ++ rest) = (.ok b, rest)) →
      ∀ fuel, items.length < fuel →
        untilError next fuel (items.flatMap write ++ tail) = (items, some e) := by
  intro items
  induction items with
  | nil =>
    intro _ fuel hfuel
    cases fuel with
    | zero => exact absurd hfuel (Nat.lt_irrefl 0)
    | succ fuel => exact untilError_error hend fuel
  | cons b items ih =>
    intro hitem fuel hfuel
    cases fuel with
    | zero => exact absurd hfuel (Nat.not_lt_zero _)
    | succ fuel =>
      have hnext := hitem b List.mem_cons_self (items.flatMap write ++ tail)
      have hrest := ih (fun c hc => hitem c (List.mem_cons_of_mem b hc)) fuel
        (Nat.lt_of_succ_lt_succ hfuel)
      rw [List.flatMap_cons, List.append_assoc, untilError_ok (by rw [hnext]), hnext, hrest]

theorem untilError_flatMap {next : List α → Except ε β × List α} (hend : (next []).1 = .error e)
    (items : List β) (hitem : ∀ b ∈ items, ∀ rest, next (write b ++ rest) = (.ok b, rest))
    (fuel : Nat) (hfuel : items.length < fuel) :
    untilError next fuel (items.flatMap write) = (items, some e) := by
  rw [← List.append_nil (items.flatMap write)]
  exact untilError_flatMap_append hend items hitem fuel hfuel

/-- Whoever answers as `next` does wherever `next` has an item reads at least its
items. -/
theorem untilError_extends {more : σ → Except ε β × σ}
    (h : ∀ s b, (next s).1 = .ok b → more s = next s) (fuel : Nat) (s : σ) :
    (untilError next fuel s).1 <+: (untilError more fuel s).1 := by
  induction fuel generalizing s with
  | zero => exact List.prefix_refl []
  | succ fuel ih =>
    cases hnext : (next s).1 with
    | error e =>
      rw [untilError_error hnext]
      exact List.nil_prefix
    | ok b =>
      have hsame := h s b hnext
      rw [untilError_ok hnext, untilError_ok (hsame ▸ hnext), hsame]
      exact List.cons_prefix_cons.mpr ⟨rfl, ih _⟩

/-- What is read is laid out in the input, in front of what gives the error. -/
theorem eq_flatMap_of_untilError {next : List α → Except ε β × List α} {P : β → Prop}
    (hitem : ∀ l b, (next l).1 = .ok b → P b ∧ l = write b ++ (next l).2) {fuel : Nat}
    {items : List β} (h : untilError next fuel l = (items, some e)) :
    ∃ tail, (∀ b ∈ items, P b) ∧ l = items.flatMap write ++ tail ∧ (next tail).1 = .error e := by
  induction fuel generalizing l items with
  | zero => cases h
  | succ fuel ih =>
    cases hnext : (next l).1 with
    | error e' =>
      rw [untilError_error hnext] at h
      cases h
      exact ⟨l, by simp, rfl, hnext⟩
    | ok b =>
      rw [untilError_ok hnext, Prod.mk.injEq] at h
      obtain ⟨rfl, herr⟩ := h
      obtain ⟨hb, hl⟩ := hitem l b hnext
      obtain ⟨tail, hall, hrest, hend⟩ := ih (Prod.ext rfl herr)
      refine ⟨tail, ?_, ?_, hend⟩
      · intro c hc
        rcases List.mem_cons.mp hc with rfl | hc
        · exact hb
        · exact hall c hc
      · rw [List.flatMap_cons, List.append_assoc, ← hrest]
        exact hl

/-- The error is one that `next` gives. -/
theorem exists_error_of_untilError {fuel : Nat} (h : (untilError next fuel s).2 = some e) :
    ∃ s', (next s').1 = .error e := by
  induction fuel generalizing s with
  | zero => cases h
  | succ fuel ih =>
    cases hnext : (next s).1 with
    | error e' =>
      rw [untilError_error hnext] at h
      cases h
      exact ⟨s, hnext⟩
    | ok b =>
      rw [untilError_ok hnext] at h
      exact ih h

end UntilError

end SharkSocket.Lib
