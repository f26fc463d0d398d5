import SharkSocket.Lib.Pool

/-!
# Locks held by a pool of processes

`f a` is the lock that the process `a` holds, if it holds one.  A lock is `Held` when
some process of the pool holds it.  When a process takes a lock only while it is not
held, no two processes ever hold the same one (`Exclusive`).
-/

namespace SharkSocket.Lib

variable {α κ : Type*} {f : α → Option κ} {l : List α}

def Held (f : α → Option κ) (l : List α) (i : κ) : Prop := ∃ a ∈ l, f a = some i

instance [DecidableEq κ] (f : α → Option κ) (l : List α) (i : κ) : Decidable (Held f l i) :=
  inferInstanceAs (Decidable (∃ a ∈ l, f a = some i))

def Exclusive (f : α → Option κ) (l : List α) : Prop :=
  ∀ (m n : Nat) (a b : α) (i : κ), l[m]? = some a → l[n]? = some b → f a = some i →
    f b = some i → m = n

theorem exclusive_nil (f : α → Option κ) : Exclusive f [] := by
  intro m n a b i ha
  cases ha

theorem Exclusive.concat (h : Exclusive f l) {x : α} (hx : f x = none) :
    Exclusive f (l ++ [x]) := by
  have hold : ∀ (m : Nat) (a : α) (i : κ), (l ++ [x])[m]? = some a → f a = some i →
      l[m]? = some a := by
    intro m a i ha hi
    rcases getElem?_concat_eq_some.mp ha with ha | ⟨-, rfl⟩
    · exact ha
    rw [hx] at hi
    cases hi
  intro m n a b i ha hb hia hib
  exact h m n a b i (hold m a i ha hia) (hold n b i hb hib) hia hib

/-- A process that moves keeps its lock, gives it back, or takes one that is free. -/
theorem Exclusive.set (h : Exclusive f l) {n : Nat} {a x : α} (hn : l[n]? = some a)
    (hx : ∀ i, f x = some i → f a = some i ∨ ¬ Held f l i) : Exclusive f (l.set n x) := by
  have hother : ∀ (m : Nat) (b : α) (i : κ), l[m]? = some b → f b = some i → f x = some i →
      m = n := by
    intro m b i hb hib hix
    rcases hx i hix with hia | hfree
    · exact h m n b a i hb hn hib hia
    · exact absurd ⟨b, List.mem_of_getElem? hb, hib⟩ hfree
  intro m k b c i hb hc hib hic
  rcases getElem?_set_eq_some hb with ⟨rfl, rfl⟩ | ⟨-, hb'⟩
  · rcases getElem?_set_eq_some hc with ⟨rfl, -⟩ | ⟨-, hc'⟩
    · rfl
    · exact (hother k c i hc' hic hib).symm
  rcases getElem?_set_eq_some hc with ⟨rfl, rfl⟩ | ⟨-, hc'⟩
  · exact hother m b i hb' hib hic
  · exact h m k b c i hb' hc' hib hic

end SharkSocket.Lib
