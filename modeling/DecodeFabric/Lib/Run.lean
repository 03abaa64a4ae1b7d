import Mathlib.Data.List.Basic

/- Runs of a labelled transition relation.

   `Run next s h t`: the transitions listed in `h`, oldest first, lead from `s` to
   `t`. The history keeps the state before and after every transition, so a
   statement about what happened along a run (which outputs, between which two
   moments) is a statement about a list. `Run.history` is the induction every
   safety result goes through, `Run.invariant` its case for a property of the state
   alone; `Run.split` cuts a run at a transition. -/
namespace Lib
open List

/-- One transition taken: the state before, what was done, the state after. -/
structure Edge (σ ℓ : Type) where
  pre : σ
  label : ℓ
  post : σ

inductive Run {σ ℓ : Type} (next : σ → ℓ → σ → Prop) : σ → List (Edge σ ℓ) → σ → Prop
  | nil (s : σ) : Run next s [] s
  | snoc {s t u : σ} {h : List (Edge σ ℓ)} {l : ℓ} :
      Run next s h t → next t l u → Run next s (h ++ [⟨t, l, u⟩]) u

namespace Run
variable {σ ℓ : Type} {next : σ → ℓ → σ → Prop} {s t u : σ} {l : ℓ} {e : Edge σ ℓ} {h k h₁ h₂ : List (Edge σ ℓ)}
  {I : σ → Prop} {P : Edge σ ℓ → Prop}

theorem single (h : next s l t) : Run next s [⟨s, l, t⟩] t :=
  snoc (nil s) h

theorem append (hr : Run next s h t) (kr : Run next t k u) : Run next s (h ++ k) u := by
  induction kr with
  | nil => rw [append_nil]; exact hr
  | snoc _ hn ih => rw [← append_assoc]; exact snoc ih hn

/-- A run cut at one of its transitions. -/
theorem split (hr : Run next s (h₁ ++ e :: h₂) u) :
    Run next s h₁ e.pre ∧ next e.pre e.label e.post ∧ Run next e.post h₂ u := by
  generalize hh : h₁ ++ e :: h₂ = h at hr
  induction hr generalizing h₂ with
  | nil => simp at hh
  | @snoc t u h l hr hn ih =>
    rcases eq_nil_or_concat h₂ with rfl | ⟨h₃, e', rfl⟩
    · obtain ⟨rfl, he⟩ := append_inj' hh rfl
      simp only [cons.injEq, and_true] at he
      subst he
      exact ⟨hr, hn, nil _⟩
    · rw [concat_eq_append, ← cons_append, ← append_assoc] at hh
      obtain ⟨hinit, he⟩ := append_inj' hh rfl
      simp only [cons.injEq, and_true] at he
      subst he
      obtain ⟨h1, h2, h3⟩ := ih hinit
      refine ⟨h1, h2, ?_⟩
      rw [concat_eq_append]
      exact snoc h3 hn

/-- What holds of the empty history and is kept by every transition meeting `P`, the history growing by it, holds at
    the end of every run made of such transitions. -/
theorem history {I : List (Edge σ ℓ) → σ → Prop}
    (hstep : ∀ h e, Run next s h e.pre → next e.pre e.label e.post → P e → I h e.pre → I (h ++ [e]) e.post)
    (hr : Run next s h t) (hP : ∀ e ∈ h, P e) (h0 : I [] s) : I h t := by
  induction hr with
  | nil => exact h0
  | @snoc t u h l hr hn ih =>
    have hlast : P ⟨t, l, u⟩ := hP _ (by simp)
    exact hstep h ⟨t, l, u⟩ hr hn hlast (ih fun e he => hP e (by simp [he]))

theorem invariant (hstep : ∀ e : Edge σ ℓ, next e.pre e.label e.post → P e → I e.pre → I e.post)
    (hr : Run next s h t) (hP : ∀ e ∈ h, P e) (h0 : I s) : I t :=
  hr.history (I := fun _ => I) (fun _ e _ => hstep e) hP h0

/-- The invariant at each transition of the run. -/
theorem invariant_at (hstep : ∀ e : Edge σ ℓ, next e.pre e.label e.post → P e → I e.pre → I e.post)
    (hr : Run next s h t) (hP : ∀ e ∈ h, P e) (h0 : I s) (he : e ∈ h) : I e.pre ∧ next e.pre e.label e.post := by
  obtain ⟨h₁, h₂, rfl⟩ := append_of_mem he
  obtain ⟨hpre, hnext, -⟩ := hr.split
  exact ⟨hpre.invariant hstep (fun e' he' => hP e' (by simp [he'])) h0, hnext⟩

/-- What the transitions of a run put out, if each one, from a state of the invariant, puts out only what `Q`
    accepts. -/
theorem outputs {β : Type} {out : Edge σ ℓ → List β} {Q : β → Prop}
    (hstep : ∀ e : Edge σ ℓ, next e.pre e.label e.post → P e → I e.pre → I e.post ∧ ∀ b ∈ out e, Q b)
    (hr : Run next s h t) (hP : ∀ e ∈ h, P e) (h0 : I s) : ∀ b ∈ h.flatMap out, Q b := by
  intro b hb
  obtain ⟨e, he, hbe⟩ := mem_flatMap.mp hb
  obtain ⟨hI, hnext⟩ := hr.invariant_at (fun e hn hp hi => (hstep e hn hp hi).1) hP h0 he
  exact (hstep e hnext (hP e he) hI).2 b hbe

end Run

/-! Reachability by transitions of a kind. -/

/-- `t` is reached from `s` by transitions that satisfy `P`. -/
def Path {σ ℓ : Type} (next : σ → ℓ → σ → Prop) (P : Edge σ ℓ → Prop) (s t : σ) : Prop :=
  ∃ h : List (Edge σ ℓ), Run next s h t ∧ ∀ e ∈ h, P e

namespace Path
variable {σ ℓ : Type} {next : σ → ℓ → σ → Prop} {P Q : Edge σ ℓ → Prop} {s t u : σ}

theorem refl (P : Edge σ ℓ → Prop) (s : σ) : Path next P s s := ⟨[], Run.nil s, by simp⟩

theorem single {l : ℓ} (h : next s l t) (hP : P ⟨s, l, t⟩) : Path next P s t := by
  refine ⟨[⟨s, l, t⟩], Run.single h, ?_⟩
  intro e he
  rw [mem_singleton.mp he]
  exact hP

theorem trans (h₁ : Path next P s t) (h₂ : Path next P t u) : Path next P s u := by
  obtain ⟨m₁, r₁, a₁⟩ := h₁
  obtain ⟨m₂, r₂, a₂⟩ := h₂
  refine ⟨m₁ ++ m₂, r₁.append r₂, ?_⟩
  intro e he
  rcases mem_append.mp he with he | he
  · exact a₁ e he
  · exact a₂ e he

theorem mono (hPQ : ∀ e, P e → Q e) (h : Path next P s t) : Path next Q s t := by
  obtain ⟨m, r, hP⟩ := h
  exact ⟨m, r, fun e he => hPQ e (hP e he)⟩

/-- What the transitions keep, the path keeps. -/
theorem invariant {I : σ → Prop} (hI : ∀ e : Edge σ ℓ, next e.pre e.label e.post → P e → I e.pre → I e.post)
    (h : Path next P s t) (hs : I s) : I t := by
  obtain ⟨m, r, hP⟩ := h
  exact r.invariant hI hP hs

end Path

/-! Loops read as runs: the turns of a left fold, and folds with an output per turn. -/

section Loops
variable {σ ℓ α β : Type} {f : σ → α → σ} {I : σ → Prop} {next : σ → ℓ → σ → Prop} {P : Edge σ ℓ → Prop}

/-- The turns of `l.foldl f s`: the accumulator each element meets, with the element. -/
def turns (f : σ → α → σ) : σ → List α → List (σ × α)
  | _, [] => []
  | s, x :: l => (s, x) :: turns f (f s x) l

/-- A loop that carries a state and emits one output per element. -/
def scan (f : σ → α → σ × β) : σ → List α → σ × List β
  | s, [] => (s, [])
  | s, x :: l => ((scan f (f s x).1 l).1, (f s x).2 :: (scan f (f s x).1 l).2)

theorem scan_fst (f : σ → α → σ × β) : ∀ (l : List α) (s : σ), (scan f s l).1 = l.foldl (fun t x => (f t x).1) s
  | [], _ => rfl
  | x :: l, s => scan_fst f l (f s x).1

theorem scan_snd (f : σ → α → σ × β) : ∀ (l : List α) (s : σ),
    (scan f s l).2 = (turns (fun t x => (f t x).1) s l).map (fun p => (f p.1 p.2).2)
  | [], _ => rfl
  | x :: l, s => by
    simp only [scan, turns, map_cons]
    rw [scan_snd f l]

/-- The elements with their outputs. -/
theorem scan_zip (f : σ → α → σ × β) : ∀ (l : List α) (s : σ),
    l.zip (scan f s l).2 = (turns (fun t x => (f t x).1) s l).map fun p => (p.2, (f p.1 p.2).2)
  | [], _ => rfl
  | x :: l, s => congrArg _ (scan_zip f l (f s x).1)

/-- Two scans in step: related states stay related, and the outputs agree. -/
theorem scan_rel {R : σ → σ → Prop} {f : σ → α → σ × β}
    (h : ∀ s t x, R s t → R (f s x).1 (f t x).1 ∧ (f s x).2 = (f t x).2) : ∀ (l : List α) {s t : σ}, R s t →
      R (scan f s l).1 (scan f t l).1 ∧ (scan f s l).2 = (scan f t l).2
  | [], _, _, hst => ⟨hst, rfl⟩
  | x :: l, s, t, hst => by
    obtain ⟨hstep, hout⟩ := h s t x hst
    obtain ⟨hrest, houts⟩ := scan_rel h l hstep
    exact ⟨hrest, congrArg₂ cons hout houts⟩

/-- What every turn keeps, the fold keeps. -/
theorem foldl_invariant : ∀ {l : List α} {s : σ},
    (∀ p ∈ turns f s l, I p.1 → I (f p.1 p.2)) → I s → I (l.foldl f s)
  | [], _, _, h0 => h0
  | x :: l, s, h, h0 => by
    rw [foldl_cons]
    refine foldl_invariant (l := l) (fun p hp => h p ?_) (h (s, x) ?_ h0)
    · exact mem_cons_of_mem _ hp
    · exact mem_cons_self

/-- What every turn keeps holds at every turn. -/
theorem invariant_at_turns : ∀ {l : List α} {s : σ},
    (∀ p ∈ turns f s l, I p.1 → I (f p.1 p.2)) → I s → ∀ p ∈ turns f s l, I p.1
  | [], _, _, _, p, hp => by simp [turns] at hp
  | x :: l, s, h, h0, p, hp => by
    rcases mem_cons.mp hp with rfl | hp
    · exact h0
    · exact invariant_at_turns (fun p hp => h p (mem_cons_of_mem _ hp)) (h (s, x) mem_cons_self h0) p hp

theorem mem_of_mem_turns : ∀ {l : List α} {s : σ} {p : σ × α}, p ∈ turns f s l → p.2 ∈ l
  | [], _, _, h => by simp [turns] at h
  | x :: l, s, p, h => by
    rcases mem_cons.mp h with rfl | h
    · exact mem_cons_self
    · exact mem_cons_of_mem _ (mem_of_mem_turns h)

/-- The same, if the turns of the elements of the list keep it from anywhere. -/
theorem invariant_at_turn {l : List α} {s : σ} (h : ∀ t, ∀ x ∈ l, I t → I (f t x)) (h0 : I s) :
    ∀ p ∈ turns f s l, I p.1 :=
  invariant_at_turns (fun p hp => h p.1 p.2 (mem_of_mem_turns hp)) h0

theorem exists_turn : ∀ {l : List α} {s : σ} {x : α}, x ∈ l → ∃ t, (t, x) ∈ turns f s l
  | y :: l, s, x, hx => by
    rcases mem_cons.mp hx with rfl | hx
    · exact ⟨s, mem_cons_self⟩
    · obtain ⟨t, ht⟩ := exists_turn (s := f s y) hx
      exact ⟨t, mem_cons_of_mem _ ht⟩

/-- A turn cuts the loop in two. -/
theorem turns_split : ∀ {l : List α} {s : σ} {p : σ × α}, p ∈ turns f s l →
    ∃ l₁ l₂, l = l₁ ++ p.2 :: l₂ ∧ p.1 = l₁.foldl f s ∧ l.foldl f s = l₂.foldl f (f p.1 p.2)
  | [], _, _, h => by simp [turns] at h
  | x :: l, s, p, h => by
    rcases mem_cons.mp h with rfl | h
    · exact ⟨[], l, rfl, rfl, rfl⟩
    · obtain ⟨l₁, l₂, hl, hp, hrest⟩ := turns_split h
      exact ⟨x :: l₁, l₂, by rw [hl, cons_append], hp, hrest⟩

/-- What holds after a loop and not before came about in one of its turns. -/
theorem exists_turn_of_foldl : ∀ {l : List α} {s : σ}, I (l.foldl f s) → ¬I s →
    ∃ p ∈ turns f s l, ¬I p.1 ∧ I (f p.1 p.2)
  | [], _, h, h0 => absurd h h0
  | x :: l, s, h, h0 => by
    by_cases hx : I (f s x)
    · exact ⟨(s, x), mem_cons_self, h0, hx⟩
    · obtain ⟨p, hp, hbefore, hafter⟩ := exists_turn_of_foldl (l := l) h hx
      exact ⟨p, mem_cons_of_mem _ hp, hbefore, hafter⟩

/-- The part of the accumulator that belongs to an element, if every turn leaves the parts of other keys alone. -/
theorem turns_own {κ γ : Type} (key : α → κ) (view : σ → α → γ)
    (hf : ∀ s x y, key y ≠ key x → view (f s x) y = view s y) :
    ∀ {l : List α} {s : σ}, (l.map key).Nodup → ∀ p ∈ turns f s l, view p.1 p.2 = view s p.2
  | [], _, _, p, hp => by simp [turns] at hp
  | x :: l, s, hn, p, hp => by
    obtain ⟨hx, hl⟩ := nodup_cons.mp hn
    rcases mem_cons.mp hp with rfl | hp
    · rfl
    · rw [turns_own key view hf hl p hp]
      exact hf s x p.2 fun heq => hx (heq ▸ mem_map_of_mem (mem_of_mem_turns hp))

/-- A loop whose turns are paths. -/
theorem Path.foldl {l : List α} {s : σ}
    (h : ∀ p ∈ turns f s l, Path next P p.1 (f p.1 p.2)) : Path next P s (l.foldl f s) :=
  foldl_invariant (I := fun t => Path next P s t) (fun p hp ht => ht.trans (h p hp)) (refl P s)

/-- The rest of such a loop, after one of its turns. -/
theorem Path.rest : ∀ {l : List α} {s : σ},
    (∀ p ∈ turns f s l, Path next P p.1 (f p.1 p.2)) → ∀ {p : σ × α}, p ∈ turns f s l →
      Path next P (f p.1 p.2) (l.foldl f s)
  | [], _, _, p, hp => by simp [turns] at hp
  | x :: l, s, h, p, hp => by
    have hl : ∀ p ∈ turns f (f s x) l, Path next P p.1 (f p.1 p.2) := fun p hp => h p (mem_cons_of_mem _ hp)
    rcases mem_cons.mp hp with rfl | hp
    · exact foldl hl
    · exact rest hl hp

/-- A loop that carries a state, emits one output per element and stops at the first that fails. -/
def scanE {ε : Type} (f : σ → α → σ × Except ε β) : σ → List α → σ × Except ε (List β)
  | s, [] => (s, .ok [])
  | s, x :: l =>
    match f s x with
    | (s, .error e) => (s, .error e)
    | (s, .ok y) =>
      match scanE f s l with
      | (s, .error e) => (s, .error e)
      | (s, .ok ys) => (s, .ok (y :: ys))

end Loops

/-! Two fallible machines in step. -/

section Paired
variable {σ τ α β γ δ ε ε' : Type}

/-- Both calls fail, or both succeed with outputs that `Q` relates. `R` relates the states, given what has been emitted:
    `out` before the call, and what `emit` takes from its output. -/
inductive Paired (R : σ → τ → List δ → Prop) (Q : β → γ → Prop) (emit : β → List δ) (out : List δ) :
    σ × Except ε β → τ × Except ε' γ → Prop
  | ok {s : σ} {t : τ} {y : β} {z : γ} : Q y z → R s t (out ++ emit y) → Paired R Q emit out (s, .ok y) (t, .ok z)
  | error {s : σ} {t : τ} {e : ε} {e' : ε'} : R s t out → Paired R Q emit out (s, .error e) (t, .error e')

/-- Loops whose turns are in step are in step, if a relation survives that outputs are forgotten. -/
theorem Paired.scanE {R : σ → τ → List δ → Prop} {Q : β → γ → Prop} {emit : β → List δ}
    {f : σ → α → σ × Except ε β} {g : τ → α → τ × Except ε' γ}
    (hforget : ∀ {s t out more}, R s t (out ++ more) → R s t out) : ∀ {l : List α},
    (∀ x ∈ l, ∀ s t out, R s t out → Paired R Q emit out (f s x) (g t x)) →
    ∀ {s : σ} {t : τ} {out : List δ}, R s t out →
      Paired R (List.Forall₂ Q) (flatMap emit) out (Lib.scanE f s l) (Lib.scanE g t l)
  | [], _, s, t, out, h => .ok .nil (by simpa using h)
  | x :: l, hstep, s, t, out, h => by
    have hfirst := hstep x mem_cons_self s t out h
    unfold Lib.scanE
    generalize f s x = a at hfirst
    generalize g t x = b at hfirst
    cases hfirst with
    | error hR => exact .error hR
    | @ok s₁ t₁ y z hyz hR =>
      have hrest := scanE hforget (fun x hx => hstep x (mem_cons_of_mem _ hx)) hR
      simp only
      generalize Lib.scanE f s₁ l = a at hrest
      generalize Lib.scanE g t₁ l = b at hrest
      cases hrest with
      | error hR => exact .error (hforget hR)
      | ok hys hR => exact .ok (.cons hyz hys) (by simpa [append_assoc] using hR)

/-- Two machines in step with a third are in step with each other. -/
theorem Paired.meet {σ' β' δ' ε'' : Type} {R : σ → τ → List δ → Prop} {Q : β → γ → Prop} {emit : β → List δ}
    {out : List δ}
    {R' : σ' → τ → List δ' → Prop} {Q' : β' → γ → Prop} {emit' : β' → List δ'} {out' : List δ'} {a : σ × Except ε β}
    {b : σ' × Except ε'' β'} {c : τ × Except ε' γ} (h : Paired R Q emit out a c) (h' : Paired R' Q' emit' out' b c) :
    (∃ s e s' e' t, a = (s, .error e) ∧ b = (s', .error e') ∧ R s t out ∧ R' s' t out') ∨
    ∃ s y s' y' t z, a = (s, .ok y) ∧ b = (s', .ok y') ∧ Q y z ∧ Q' y' z ∧ R s t (out ++ emit y) ∧
      R' s' t (out' ++ emit' y') := by
  cases h with
  | error hR =>
    cases h' with
    | error hR' => exact .inl ⟨_, _, _, _, _, rfl, rfl, hR, hR'⟩
  | ok hy hR =>
    cases h' with
    | ok hy' hR' => exact .inr ⟨_, _, _, _, _, _, rfl, rfl, hy, hy', hR, hR'⟩

end Paired
end Lib
