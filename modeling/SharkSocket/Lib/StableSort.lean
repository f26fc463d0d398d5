import Mathlib.Data.List.Sort

/-!
# Stable sorting

`IsStableSort key l r` says that `r` is `l` sorted by `key`, where elements with the same
key keep their order: for every key, `r` and `l` have the same elements with that key, in
the same order.  There is one such list (`IsStableSort.unique`), and sorting a sorted list
with more elements behind it is sorting all of them (`IsStableSort.append`).

`sortStableFunc` is `slices.SortStableFunc` of Go as it sorts a short slice, by insertion
from the left.  It is a stable sort by `key` whenever its comparison tells the elements of
the list apart as their keys do (`isStableSort_sortStableFunc`).
-/

namespace SharkSocket.Lib

variable {α κ : Type*} [LinearOrder κ] {key : α → κ} {l m r s : List α}

def IsStableSort (key : α → κ) (l r : List α) : Prop :=
  r.Pairwise (fun a b => key a ≤ key b) ∧
    ∀ k, r.filter (fun a => key a = k) = l.filter (fun a => key a = k)

theorem IsStableSort.mem_iff (h : IsStableSort key l r) (a : α) : a ∈ r ↔ a ∈ l := by
  have hk : a ∈ r.filter (fun b => key b = key a) ↔ a ∈ l.filter (fun b => key b = key a) := by
    rw [h.2 (key a)]
  simpa using hk

variable {a : α} {cmp : α → α → Int} {front : List α}

/-- Two sorted lists with the same elements of every key start with the same element. -/
theorem head_eq_of_filter_eq {b : α} (hr : (a :: r).Pairwise fun a b => key a ≤ key b)
    (hs : (b :: s).Pairwise fun a b => key a ≤ key b)
    (h : ∀ k, (a :: r).filter (fun a => key a = k) = (b :: s).filter (fun a => key a = k)) :
    a = b := by
  have hmem : ∀ c, c ∈ a :: r ↔ c ∈ b :: s := by
    intro c
    have hc : c ∈ (a :: r).filter (fun a => key a = key c) ↔
        c ∈ (b :: s).filter (fun a => key a = key c) := by rw [h (key c)]
    simpa using hc
  have hle : ∀ {a b : α} {r : List α}, ((a :: r).Pairwise fun a b => key a ≤ key b) →
      b ∈ a :: r → key a ≤ key b := by
    intro a b r hp hb
    rcases List.mem_cons.mp hb with rfl | hb
    · exact le_rfl
    · exact List.rel_of_pairwise_cons hp hb
  have hkey : key b = key a :=
    le_antisymm (hle hs ((hmem a).mp List.mem_cons_self)) (hle hr ((hmem b).mpr List.mem_cons_self))
  have hfirst := h (key a)
  rw [List.filter_cons_of_pos (by simp), List.filter_cons_of_pos (by simp [hkey])] at hfirst
  exact (List.cons.inj hfirst).1

theorem IsStableSort.unique (hr : IsStableSort key l r) (hs : IsStableSort key l s) : r = s := by
  have hfilter : ∀ k, r.filter (fun a => key a = k) = s.filter (fun a => key a = k) :=
    fun k => (hr.2 k).trans (hs.2 k).symm
  obtain ⟨hsorted, -⟩ := hr
  obtain ⟨hsorted', -⟩ := hs
  induction r generalizing s with
  | nil =>
    cases s with
    | nil => rfl
    | cons b s =>
      have hb := hfilter (key b)
      rw [List.filter_cons_of_pos (by simp)] at hb
      cases hb
  | cons a r ih =>
    cases s with
    | nil =>
      have ha := hfilter (key a)
      rw [List.filter_cons_of_pos (by simp)] at ha
      cases ha
    | cons b s =>
      obtain rfl := head_eq_of_filter_eq hsorted hsorted' hfilter
      have hrest : ∀ k, r.filter (fun a => key a = k) = s.filter (fun a => key a = k) := by
        intro k
        have hk := hfilter k
        rw [List.filter_cons, List.filter_cons] at hk
        split at hk
        · exact (List.cons.inj hk).2
        · exact hk
      rw [ih hrest (List.Pairwise.of_cons hsorted) (List.Pairwise.of_cons hsorted')]

theorem IsStableSort.append (h : IsStableSort key l r) (hs : IsStableSort key (r ++ m) s) :
    IsStableSort key (l ++ m) s := by
  refine ⟨hs.1, fun k => ?_⟩
  rw [hs.2 k, List.filter_append, List.filter_append, h.2 k]

/-! ### Insertion -/

/-- `a` moves left past the elements it is smaller than; the sorted part has its last
element first. -/
def insertBack (cmp : α → α → Int) (a : α) : List α → List α
  | [] => [a]
  | b :: front => if cmp a b < 0 then b :: insertBack cmp a front else a :: b :: front

def sortStableFunc (cmp : α → α → Int) (l : List α) : List α :=
  (l.foldl (fun front a => insertBack cmp a front) []).reverse

/-- The comparison agrees with the keys on the elements of `l`. -/
def Compares (key : α → κ) (cmp : α → α → Int) (l : List α) : Prop :=
  ∀ a ∈ l, ∀ b ∈ l, (cmp a b < 0 ↔ key a < key b)

theorem mem_insertBack {c : α} : c ∈ insertBack cmp a front ↔ c = a ∨ c ∈ front := by
  induction front with
  | nil => simp [insertBack]
  | cons b front ih =>
    rw [insertBack]
    split
    · rw [List.mem_cons, List.mem_cons]
      tauto
    · rw [List.mem_cons]

theorem pairwise_insertBack (hcmp : ∀ b ∈ front, (cmp a b < 0 ↔ key a < key b))
    (hsorted : front.Pairwise fun b c => key c ≤ key b) :
    (insertBack cmp a front).Pairwise fun b c => key c ≤ key b := by
  induction front with
  | nil => exact List.pairwise_singleton _ a
  | cons b front ih =>
    rw [List.pairwise_cons] at hsorted
    have hb := hcmp b List.mem_cons_self
    rw [insertBack]
    split
    · rename_i hlt
      rw [List.pairwise_cons]
      refine ⟨?_, ih (fun c hc => hcmp c (List.mem_cons_of_mem b hc)) hsorted.2⟩
      intro c hc
      rcases mem_insertBack.mp hc with rfl | hc
      · exact (hb.mp hlt).le
      · exact hsorted.1 c hc
    rename_i hlt
    have hle : key b ≤ key a := not_lt.mp (fun h => hlt (hb.mpr h))
    rw [List.pairwise_cons]
    refine ⟨?_, List.pairwise_cons.mpr hsorted⟩
    intro c hc
    rcases List.mem_cons.mp hc with rfl | hc
    · exact hle
    · exact (hsorted.1 c hc).trans hle

theorem filter_insertBack (hcmp : ∀ b ∈ front, (cmp a b < 0 ↔ key a < key b)) (k : κ) :
    (insertBack cmp a front).filter (fun b => key b = k) =
      (a :: front).filter fun b => key b = k := by
  induction front with
  | nil => rfl
  | cons b front ih =>
    rw [insertBack]
    split
    · rename_i hlt
      have hne : key a < key b := (hcmp b List.mem_cons_self).mp hlt
      have hrest := ih fun c hc => hcmp c (List.mem_cons_of_mem b hc)
      -- the two elements have different keys, so at most one of them is kept
      by_cases ha : key a = k
      · have hb : ¬ key b = k := fun hb => hne.ne (ha.trans hb.symm)
        rw [List.filter_cons_of_neg (by simpa using hb), hrest,
          List.filter_cons_of_pos (by simpa using ha), List.filter_cons_of_pos (by simpa using ha),
          List.filter_cons_of_neg (by simpa using hb)]
      rw [List.filter_cons_of_neg (a := a) (by simpa using ha), List.filter_cons,
        List.filter_cons, hrest, List.filter_cons_of_neg (by simpa using ha)]
    · rfl

/-- **The insertion sort is a stable sort** by every key that the comparison agrees with. -/
theorem isStableSort_sortStableFunc (h : Compares key cmp l) :
    IsStableSort key l (sortStableFunc cmp l) := by
  -- the part that is sorted, last element first, when the rest is still to be inserted
  have hfold : ∀ (rest done front : List α), done ++ rest = l → (∀ a ∈ front, a ∈ l) →
      (front.Pairwise fun b c => key c ≤ key b) →
      (∀ k, front.filter (fun a => key a = k) = (done.filter fun a => key a = k).reverse) →
      IsStableSort key l (rest.foldl (fun front a => insertBack cmp a front) front).reverse := by
    intro rest
    induction rest with
    | nil =>
      intro done front hl hmem hsorted hfilter
      rw [List.append_nil] at hl
      subst hl
      refine ⟨List.pairwise_reverse.mpr hsorted, fun k => ?_⟩
      rw [List.foldl_nil, List.filter_reverse, hfilter k, List.reverse_reverse]
    | cons a rest ih =>
      intro done front hl hmem hsorted hfilter
      have ha : a ∈ l := by
        rw [← hl]
        exact List.mem_append_right done List.mem_cons_self
      have hcmp : ∀ b ∈ front, (cmp a b < 0 ↔ key a < key b) := fun b hb => h a ha b (hmem b hb)
      refine ih (done ++ [a]) (insertBack cmp a front) ?_ ?_ (pairwise_insertBack hcmp hsorted) ?_
      · rw [List.append_assoc, List.singleton_append, hl]
      · intro b hb
        rcases mem_insertBack.mp hb with rfl | hb
        · exact ha
        · exact hmem b hb
      · intro k
        have hone : (a :: front).filter (fun b => key b = k) =
            ([a].filter fun b => key b = k).reverse ++ front.filter fun b => key b = k := by
          by_cases hk : key a = k <;> simp [hk]
        rw [filter_insertBack hcmp k, hone, List.filter_append, List.reverse_append, hfilter k]
  exact hfold l [] [] rfl (by simp) List.Pairwise.nil fun k => rfl

end SharkSocket.Lib
