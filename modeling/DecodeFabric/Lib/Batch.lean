import DecodeFabric.Lib.Run
import Mathlib.Data.List.Forall2

/- Loops over items that do not interfere.

   A loop `scan f` takes its items one after the other, each against the state its predecessors
   left. If a turn brings its own item from `Todo` to `Done` and, for items that are apart, keeps both, then the
   loop brings every item of a list of items pairwise apart to `Done`, whatever the order.
   `I` is what every turn keeps of the state as a whole. -/
namespace Lib

section
variable {σ α β : Type}

structure Batch (f : σ → α → σ × β) (Apart : α → α → Prop) (I : σ → Prop) (Todo : σ → α → Prop)
    (Done : σ → α → β → Prop) : Prop where
  apart : ∀ {x y}, Apart x y → Apart y x
  keeps : ∀ {s x}, I s → Todo s x → I (f s x).1
  turn : ∀ {s x}, I s → Todo s x → Done (f s x).1 x (f s x).2
  todo : ∀ {s x y}, I s → Todo s x → Apart x y → Todo s y → Todo (f s x).1 y
  done : ∀ {s x y b}, I s → Todo s x → Apart x y → Done s y b → Done (f s x).1 y b

namespace Batch
variable {f : σ → α → σ × β} {Apart : α → α → Prop} {I : σ → Prop} {Todo : σ → α → Prop} {Done : σ → α → β → Prop}

/-- The loop keeps what it has done for an item apart from all it goes over. -/
theorem keeps_done (B : Batch f Apart I Todo Done) : ∀ {l : List α} {s : σ}, l.Pairwise Apart → I s →
    (∀ x ∈ l, Todo s x) → ∀ {y : α} {b : β}, (∀ x ∈ l, Apart x y) → Done s y b → Done (scan f s l).1 y b
  | [], _, _, _, _, _, _, _, hd => hd
  | x :: l, s, hl, hI, htodo, y, b, hy, hd => by
    obtain ⟨hx, hl⟩ := List.pairwise_cons.mp hl
    have hxtodo := htodo x List.mem_cons_self
    refine B.keeps_done hl (B.keeps hI hxtodo) (fun z hz => ?_) (fun z hz => hy z (List.mem_cons_of_mem _ hz))
      (B.done hI hxtodo (hy x List.mem_cons_self) hd)
    exact B.todo hI hxtodo (hx z hz) (htodo z (List.mem_cons_of_mem _ hz))

/-- The loop does every item. -/
theorem run (B : Batch f Apart I Todo Done) : ∀ {l : List α} {s : σ}, l.Pairwise Apart → I s → (∀ x ∈ l, Todo s x) →
    I (scan f s l).1 ∧ List.Forall₂ (Done (scan f s l).1) l (scan f s l).2
  | [], _, _, hI, _ => ⟨hI, .nil⟩
  | x :: l, s, hl, hI, htodo => by
    obtain ⟨hx, hl⟩ := List.pairwise_cons.mp hl
    have hxtodo := htodo x List.mem_cons_self
    have hrest : ∀ z ∈ l, Todo (f s x).1 z :=
      fun z hz => B.todo hI hxtodo (hx z hz) (htodo z (List.mem_cons_of_mem _ hz))
    obtain ⟨hI', hall⟩ := B.run hl (B.keeps hI hxtodo) hrest
    refine ⟨hI', .cons ?_ hall⟩
    exact B.keeps_done hl (B.keeps hI hxtodo) hrest (fun z hz => B.apart (hx z hz)) (B.turn hI hxtodo)

end Batch

/-- Every item has its answer. -/
theorem forall₂_answer {R : α → β → Prop} {l : List α} {l' : List β} (h : List.Forall₂ R l l') :
    ∀ a ∈ l, ∃ b ∈ l', R a b := by
  induction h with
  | nil => exact fun _ h => by simp at h
  | @cons a b l l' hab _ ih =>
    intro c hc
    rcases List.mem_cons.mp hc with rfl | hc
    · exact ⟨b, List.mem_cons_self, hab⟩
    · obtain ⟨d, hd, hcd⟩ := ih c hc
      exact ⟨d, List.mem_cons_of_mem _ hd, hcd⟩

/-- Every answer has its item. -/
theorem forall₂_item {R : α → β → Prop} {l : List α} {l' : List β} (h : List.Forall₂ R l l') :
    ∀ b ∈ l', ∃ a ∈ l, R a b := forall₂_answer h.flip

/-- Items, their answers, and what came of the answers. -/
theorem forall₂_zip {γ : Type} {R : α → β → Prop} {S : β → γ → Prop} {l : List α} {l' : List β} {l'' : List γ}
    (h : List.Forall₂ R l l') (h' : List.Forall₂ S l' l'') :
    List.Forall₂ (fun a p => R a p.1 ∧ S p.1 p.2) l (l'.zip l'') := by
  induction h generalizing l'' with
  | nil => exact .nil
  | cons hab _ ih =>
    cases h' with
    | cons hbc hrest => exact .cons ⟨hab, hbc⟩ (ih hrest)

/-- Answers to items pairwise apart are pairwise apart, if that can be told from the items. -/
theorem forall₂_pairwise {R : α → β → Prop} {P : α → α → Prop} {Q : β → β → Prop}
    (h : ∀ a a' b b', R a b → R a' b' → P a a' → Q b b') {l : List α} {l' : List β} (hR : List.Forall₂ R l l')
    (hP : l.Pairwise P) : l'.Pairwise Q := by
  induction hR with
  | nil => exact .nil
  | @cons a b l l' hab hrest ih =>
    obtain ⟨hhead, htail⟩ := List.pairwise_cons.mp hP
    refine List.pairwise_cons.mpr ⟨fun b' hb' => ?_, ih htail⟩
    obtain ⟨a', ha', hab'⟩ := forall₂_item hrest b' hb'
    exact h a a' b b' hab hab' (hhead a' ha')

end
end Lib
