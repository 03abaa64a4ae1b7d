import Mathlib.Data.List.Nodup
import Mathlib.Data.List.Perm.Basic
import Mathlib.Logic.Function.Basic

/- One-use permits.

   Owners are handed numbered permits by a book that never reuses a number. An owner holds at
   most one permit at a time; a held permit is spent once, or is lost: silently dropped, or
   voided in the book. Spending appends the permit to its owner's chain.

   The rule `ok k l p` says when `p` may be issued to `k` whose chain is `l`. The point of the
   pattern is `Sound.live` and `Sound.admitted`: because issuing waits until the owner holds
   nothing, and the chain grows only by spending what is held, a held permit fits the chain as
   it is now, so every permit of a chain was issued against exactly the part before it. -/
namespace Lib.Permit
open Function List

inductive Status where
  | pending
  | spent
  | void
  deriving DecidableEq

structure Entry (κ π : Type) where
  owner : κ
  permit : π
  status : Status

structure Book (κ π : Type) where
  next : Nat
  entry : Nat → Option (Entry κ π)
  /-- The number of the permit an owner holds. -/
  live : κ → Option Nat
  /-- The permits spent for an owner, oldest first. -/
  chain : κ → List π

variable {κ π : Type} [DecidableEq κ]

namespace Book

def issue (b : Book κ π) (k : κ) (p : π) : Book κ π :=
  { b with
    next := b.next + 1
    entry := update b.entry b.next (some ⟨k, p, .pending⟩)
    live := update b.live k (some b.next) }

def spend (b : Book κ π) (k : κ) (i : Nat) (p : π) : Book κ π :=
  { b with
    entry := update b.entry i (some ⟨k, p, .spent⟩)
    live := update b.live k none
    chain := update b.chain k (b.chain k ++ [p]) }

def drop (b : Book κ π) (k : κ) : Book κ π := { b with live := update b.live k none }

def void (b : Book κ π) (k : κ) (i : Nat) (p : π) : Book κ π :=
  { b with
    entry := update b.entry i (some ⟨k, p, .void⟩)
    live := update b.live k none }

/-- The permit number `i` spent for `k`, if there is one. -/
def spentBy (b : Book κ π) (k : κ) (i : Nat) : Option π :=
  match b.entry i with
  | some ⟨k', p, .spent⟩ => if k' = k then some p else none
  | _ => none

end Book

inductive Step (ok : κ → List π → π → Prop) : Book κ π → Book κ π → Prop
  | issue {b : Book κ π} {k : κ} {p : π} : b.live k = none → ok k (b.chain k) p → Step ok b (b.issue k p)
  | spend {b : Book κ π} {k : κ} {i : Nat} {p : π} :
      b.live k = some i → b.entry i = some ⟨k, p, .pending⟩ → Step ok b (b.spend k i p)
  | drop {b : Book κ π} (k : κ) : Step ok b (b.drop k)
  | void {b : Book κ π} {k : κ} {i : Nat} {p : π} :
      b.live k = some i → b.entry i = some ⟨k, p, .pending⟩ → Step ok b (b.void k i p)

structure Sound (ok : κ → List π → π → Prop) (b : Book κ π) : Prop where
  bounded : ∀ i e, b.entry i = some e → i < b.next
  live : ∀ k i, b.live k = some i → ∃ p, b.entry i = some ⟨k, p, .pending⟩ ∧ ok k (b.chain k) p
  admitted : ∀ k l p r, b.chain k = l ++ p :: r → ok k l p
  spent : ∀ k, ((range b.next).filterMap (b.spentBy k)).Perm (b.chain k)

/-- A partial function that gains a value at one point of a list gains it in the image. -/
theorem filterMap_gain {α β : Type} {f g : α → Option β} {a : α} {y : β} (hf : f a = none) (hg : g a = some y)
    (hfg : ∀ x, x ≠ a → g x = f x) : ∀ {l : List α}, l.Nodup → a ∈ l → (l.filterMap g).Perm (l.filterMap f ++ [y])
  | [], _, h => by simp at h
  | x :: l, hn, h => by
    obtain ⟨hx, hn⟩ := nodup_cons.mp hn
    by_cases hxa : x = a
    · subst hxa
      have hsame : l.filterMap g = l.filterMap f := by
        apply filterMap_congr
        intro z hz
        exact hfg z (fun hza => hx (hza ▸ hz))
      rw [filterMap_cons_some hg, filterMap_cons_none hf, hsame]
      exact (perm_append_singleton y _).symm
    · have ha : a ∈ l := by
        rcases mem_cons.mp h with h | h
        · exact absurd h.symm hxa
        · exact h
      have ih := filterMap_gain hf hg hfg hn ha
      cases hfx : f x with
      | none => rw [filterMap_cons_none ((hfg x hxa).trans hfx), filterMap_cons_none hfx]; exact ih
      | some z =>
        rw [filterMap_cons_some ((hfg x hxa).trans hfx), filterMap_cons_some hfx]
        exact ih.cons z

namespace Sound
variable {ok : κ → List π → π → Prop} {b b' : Book κ π}

/-- A permit is held by its owner only. -/
theorem live_injective (h : Sound ok b) {j k : κ} {i : Nat} (hj : b.live j = some i) (hk : b.live k = some i) :
    j = k := by
  obtain ⟨p, hp, -⟩ := h.live j i hj
  obtain ⟨p', hp', -⟩ := h.live k i hk
  rw [hp] at hp'
  cases hp'
  rfl

/-- The other owners' permits are elsewhere in the book. -/
theorem live_ne (h : Sound ok b) {j k : κ} {i i' : Nat} (hjk : j ≠ k) (hj : b.live j = some i')
    (hk : b.live k = some i) : i' ≠ i := fun hi => hjk (h.live_injective hj (hi ▸ hk))

theorem issue (h : Sound ok b) {k : κ} {p : π} (hok : ok k (b.chain k) p) : Sound ok (b.issue k p) := by
  have hold : ∀ i e, b.entry i = some e → (b.issue k p).entry i = some e := by
    intro i e hi
    have hlt := h.bounded i e hi
    exact (update_of_ne (Nat.ne_of_lt hlt) _ _).trans hi
  refine ⟨?_, ?_, h.admitted, ?_⟩
  · intro i e hi
    by_cases hin : i = b.next
    · exact hin ▸ Nat.lt_succ_self b.next
    · rw [show (b.issue k p).entry i = b.entry i from update_of_ne hin _ _] at hi
      exact Nat.lt_succ_of_lt (h.bounded i e hi)
  · intro j i hj
    by_cases hjk : j = k
    · subst hjk
      rw [show (b.issue j p).live j = some b.next from update_self _ _ _] at hj
      cases hj
      exact ⟨p, update_self _ _ _, hok⟩
    · rw [show (b.issue k p).live j = b.live j from update_of_ne hjk _ _] at hj
      obtain ⟨p', hp', hok'⟩ := h.live j i hj
      exact ⟨p', hold i _ hp', hok'⟩
  · intro j
    -- the new number is pending, so nothing more is spent
    have hnew : (b.issue k p).spentBy j b.next = none := by
      simp [Book.spentBy, Book.issue]
    have hsame : (range b.next).filterMap ((b.issue k p).spentBy j) =
        (range b.next).filterMap (b.spentBy j) := by
      apply filterMap_congr
      intro i hi
      have hne : i ≠ b.next := Nat.ne_of_lt (mem_range.mp hi)
      simp [Book.spentBy, Book.issue, update_of_ne hne]
    change ((range (b.next + 1)).filterMap ((b.issue k p).spentBy j)).Perm (b.chain j)
    rw [range_succ, filterMap_append, hsame, filterMap_cons_none hnew, filterMap_nil,
      append_nil]
    exact h.spent j

/-- Whoever still holds a permit after `k` gave up its own is someone else, and held it before. -/
theorem live_of_update_none {live : κ → Option Nat} {j k : κ} {i : Nat}
    (h : update live k none j = some i) : j ≠ k ∧ live j = some i := by
  by_cases hjk : j = k
  · rw [hjk, update_self] at h
    cases h
  · rw [update_of_ne hjk] at h
    exact ⟨hjk, h⟩

/-- Giving up what `k` holds, the book's entry for it marked with a status or left as it is. -/
theorem release (h : Sound ok b) {k : κ} {entry : Nat → Option (Entry κ π)} (hentry : ∀ i, entry i = b.entry i ∨
      (b.live k = some i ∧ ∃ p, b.entry i = some ⟨k, p, .pending⟩ ∧ entry i = some ⟨k, p, .void⟩)) :
    Sound ok { b with entry, live := update b.live k none } := by
  refine ⟨?_, ?_, h.admitted, ?_⟩
  · intro i e hi
    rcases hentry i with hi' | ⟨-, p, hp, -⟩
    · exact h.bounded i e (hi' ▸ hi)
    · exact h.bounded i _ hp
  · intro j i hj
    obtain ⟨hjk, hj⟩ := live_of_update_none hj
    obtain ⟨p, hp, hok⟩ := h.live j i hj
    rcases hentry i with hi' | ⟨hk, -⟩
    · exact ⟨p, hi'.trans hp, hok⟩
    · exact absurd rfl (h.live_ne hjk hj hk)
  · intro j
    have hsame : ∀ i, Book.spentBy { b with entry, live := update b.live k none } j i = b.spentBy j i := by
      intro i
      rcases hentry i with hi' | ⟨-, p, hp, hp'⟩
      · simp [Book.spentBy, hi']
      · simp [Book.spentBy, hp, hp']
    simp only [funext hsame]
    exact h.spent j

theorem spend (h : Sound ok b) {k : κ} {i : Nat} {p : π} (hl : b.live k = some i)
    (he : b.entry i = some ⟨k, p, .pending⟩) : Sound ok (b.spend k i p) := by
  have hfits : ok k (b.chain k) p := by
    obtain ⟨p', hp', hok⟩ := h.live k i hl
    rw [he] at hp'
    cases hp'
    exact hok
  refine ⟨?_, ?_, ?_, ?_⟩
  · intro i' e hi'
    by_cases hii : i' = i
    · exact hii ▸ h.bounded i _ he
    · rw [show (b.spend k i p).entry i' = b.entry i' from update_of_ne hii _ _] at hi'
      exact h.bounded i' e hi'
  · intro j i' hj
    obtain ⟨hjk, hj⟩ := live_of_update_none hj
    obtain ⟨p', hp', hok⟩ := h.live j i' hj
    refine ⟨p', ?_, ?_⟩
    · exact (update_of_ne (h.live_ne hjk hj hl) _ _).trans hp'
    · rw [show (b.spend k i p).chain j = b.chain j from update_of_ne hjk _ _]
      exact hok
  · intro j l p' r hj
    by_cases hjk : j = k
    · subst hjk
      rw [show (b.spend j i p).chain j = b.chain j ++ [p] from update_self _ _ _] at hj
      -- either `p'` is the permit just spent, or it was in the chain before
      rcases eq_nil_or_concat r with rfl | ⟨r', y, rfl⟩
      · obtain ⟨hchain, hp⟩ := append_inj' hj rfl
        simp only [cons.injEq, and_true] at hp
        exact hchain ▸ hp ▸ hfits
      · rw [concat_eq_append, ← cons_append, ← append_assoc] at hj
        exact h.admitted j l p' r' (append_inj' hj rfl).1
    · rw [show (b.spend k i p).chain j = b.chain j from update_of_ne hjk _ _] at hj
      exact h.admitted j l p' r hj
  · intro j
    by_cases hjk : j = k
    · subst hjk
      have hgain : ((range b.next).filterMap ((b.spend j i p).spentBy j)).Perm
          ((range b.next).filterMap (b.spentBy j) ++ [p]) := by
        refine filterMap_gain (a := i) ?_ ?_ ?_ nodup_range (mem_range.mpr (h.bounded i _ he))
        · simp [Book.spentBy, he]
        · simp [Book.spentBy, Book.spend]
        · intro i' hii
          simp [Book.spentBy, Book.spend, update_of_ne hii]
      rw [show (b.spend j i p).chain j = b.chain j ++ [p] from update_self _ _ _]
      exact hgain.trans ((h.spent j).append_right [p])
    · have hsame : ∀ i', (b.spend k i p).spentBy j i' = b.spentBy j i' := by
        intro i'
        by_cases hii : i' = i
        · subst hii
          simp [Book.spentBy, Book.spend, he, Ne.symm hjk]
        · simp [Book.spentBy, Book.spend, update_of_ne hii]
      rw [show (b.spend k i p).chain j = b.chain j from update_of_ne hjk _ _]
      simp only [funext hsame]
      exact h.spent j

/-- Soundness is kept by every step. -/
theorem step (h : Sound ok b) (hs : Step ok b b') : Sound ok b' := by
  cases hs with
  | issue _ hok => exact h.issue hok
  | spend hl he => exact h.spend hl he
  | drop k => exact h.release (fun i => .inl rfl)
  | @void k i p hl he =>
    refine h.release (fun i' => ?_)
    by_cases hii : i' = i
    · subst hii
      exact .inr ⟨hl, p, he, update_self _ _ _⟩
    · exact .inl (update_of_ne hii _ _)

end Sound
end Lib.Permit
