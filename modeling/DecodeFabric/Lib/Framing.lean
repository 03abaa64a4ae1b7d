import Mathlib.Data.List.Basic

/- Cutting a stream into frames.

   A `Framing` looks at the start of a stream and says whether a frame can be cut off there, whether
   no frame can ever start so, or whether there is too little to tell. Its laws make that an answer
   about the stream and not about the part of it that has arrived: what has been said once stays
   true whatever arrives later. `scan` cuts a stream that is there as a whole; the laws are what a
   reader needs that only holds the part it has received so far. -/
namespace Lib

inductive Head (α φ ε : Type) where
  | more
  | fail (e : ε)
  | frame (f : φ) (rest : List α)

/-- The frames of a stream, and how it ended: in an error, or in a rest that is no whole frame. -/
structure Scanned (α φ ε : Type) where
  frames : List φ
  ending : Except ε (List α)

def Scanned.cons {α φ ε : Type} (f : φ) (s : Scanned α φ ε) : Scanned α φ ε := { s with frames := f :: s.frames }

/-- What is said of a stream when more of it has arrived. -/
def Head.append {α φ ε : Type} (later : List α) : Head α φ ε → Head α φ ε
  | .frame f rest => .frame f (rest ++ later)
  | head => head

structure Framing (α φ ε : Type) where
  head : List α → Head α φ ε
  append : ∀ {bs : List α} {h : Head α φ ε}, head bs = h → h ≠ .more → ∀ later, head (bs ++ later) = h.append later
  shrinks : ∀ {bs : List α} {f : φ} {rest : List α}, head bs = .frame f rest → rest.length < bs.length

namespace Framing
variable {α φ ε : Type}

def scan (F : Framing α φ ε) (bs : List α) : Scanned α φ ε :=
  match _h : F.head bs with
  | .more => ⟨[], .ok bs⟩
  | .fail e => ⟨[], .error e⟩
  | .frame f rest => (F.scan rest).cons f
termination_by bs.length
decreasing_by exact F.shrinks ‹_›

variable {F : Framing α φ ε} {bs rest : List α} {f : φ}

theorem scan_more (h : F.head bs = .more) : F.scan bs = ⟨[], .ok bs⟩ := by
  rw [scan]
  split <;> simp_all

theorem scan_fail {e : ε} (h : F.head bs = .fail e) : F.scan bs = ⟨[], .error e⟩ := by
  rw [scan]
  split <;> simp_all

theorem scan_frame (h : F.head bs = .frame f rest) : F.scan bs = (F.scan rest).cons f := by
  rw [scan]
  split <;> simp_all

/-- What was written frame by frame is cut into those frames. -/
theorem scan_written {ι : Type} {write : ι → List α} {out : ι → φ} :
    ∀ (items : List ι), (∀ i ∈ items, ∀ later, F.head (write i ++ later) = .frame (out i) later) →
      F.head [] = .more → F.scan (items.flatMap write) = ⟨items.map out, .ok []⟩
  | [], _, hnil => scan_more hnil
  | i :: items, h, hnil => by
    have hrest := scan_written items (fun j hj => h j (List.mem_cons_of_mem i hj)) hnil
    rw [List.flatMap_cons, scan_frame (h i List.mem_cons_self _), hrest]
    rfl

end Framing
end Lib
