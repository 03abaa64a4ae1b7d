import DecodeFabric.Lib.Table
import DecodeFabric.Core
import Mathlib.Data.Set.Function

/- Records in files: `FilePersistence`.

   The file system is a map from paths to bytes. Opening a file for writing, writing to it, renaming and
   removing each take effect or fail and leave the map as it is; which of them do is up to the environment
   (`WriteSteps`). The stream buffers: `write` asks it for errors before it is flushed, so a write of the
   file system may also fail where nobody looks (`Flush`). A directory that cannot be created shows as a
   file that cannot be opened. A scope becomes a file name by a rewriting that keeps letters, digits and
   three signs; a record is written to a temporary file beside it and renamed into place, and if that fails
   the old record is removed and the rename tried again. `exists` and `list` only look.

   What a client expects is a map from scopes to bytes (`recorded`). The files refine it if and only if
   scopes in use have different file names, no write loses the old record between its two renames or puts
   a cut one in place, and every removal takes effect (`file_map_faithful_iff`).

   Correspondence (C++ ↔ Lean):
     `sanitize`, `record_path`                ↔ `sanitize`, `recordPath`
     `FilePersistence::write`                 ↔ `FilePersistence.write`
     `FilePersistence::read`, `remove`        ↔ `FilePersistence.read`, `FilePersistence.remove` -/
namespace DecodeFabric
open Lib Table Function List

abbrev Scope := Bytes
abbrev Files := Table Bytes Bytes

/-! Names. -/

/-- `a`-`z`, `A`-`Z`, `0`-`9`, `_`, `-` and `.`. -/
def safeByte (c : UInt8) : Bool :=
  decide ((97 ≤ c ∧ c ≤ 122) ∨ (65 ≤ c ∧ c ≤ 90) ∨ (48 ≤ c ∧ c ≤ 57) ∨ c = 95 ∨ c = 45 ∨ c = 46)

def sanitize (scope : Scope) : Bytes := scope.map fun c => if safeByte c then c else 95

/-- `fs::path(dir) / name`, for a name without a separator. -/
def joinPath (dir name : Bytes) : Bytes :=
  if dir = [] ∨ dir.getLast? = some 47 then dir ++ name else dir ++ 47 :: name

/-- `.rec` and `.tmp`. -/
def recordSuffix : Bytes := [46, 114, 101, 99]
def temporarySuffix : Bytes := [46, 116, 109, 112]

def recordPath (dir : Bytes) (scope : Scope) : Bytes := joinPath dir (sanitize scope ++ recordSuffix)

/-- Where a record is written before it is renamed into place. -/
def temporaryPath (dir : Bytes) (scope : Scope) : Bytes := recordPath dir scope ++ temporarySuffix

theorem joinPath_inj {dir u v : Bytes} : joinPath dir u = joinPath dir v ↔ u = v := by
  unfold joinPath
  split <;> simp

theorem recordPath_inj {dir : Bytes} {a b : Scope} : recordPath dir a = recordPath dir b ↔ sanitize a = sanitize b := by
  unfold recordPath
  rw [joinPath_inj, append_left_inj]

/-- A record ends in another letter than a temporary file. -/
theorem recordPath_ne_temporaryPath (dir : Bytes) (a b : Scope) : recordPath dir a ≠ temporaryPath dir b := by
  have hends : ∀ u v : Bytes, v ≠ [] → (u ++ v).getLast? = v.getLast? := fun u v hv => getLast?_append_of_ne_nil u hv
  have hrecord : (recordPath dir a).getLast? = some 99 := by
    have hname : (sanitize a ++ recordSuffix).getLast? = some 99 := hends _ (recordSuffix) (by decide)
    have hnonempty : sanitize a ++ recordSuffix ≠ [] := fun hnil => by rw [hnil] at hname; cases hname
    unfold recordPath joinPath
    split
    · rw [hends _ _ hnonempty, hname]
    · rw [hends _ _ (cons_ne_nil _ _), getLast?_cons, hname]
      rfl
  have htemporary : (temporaryPath dir b).getLast? = some 112 := hends _ (temporarySuffix) (by decide)
  intro heq
  rw [heq, htemporary] at hrecord
  exact absurd hrecord (by decide)

/-! File operations. -/

/-- `fs::rename`, and whether it succeeded. -/
def Files.rename (takes : Bool) (src dst : Bytes) (fs : Files) : Files × Bool :=
  match fs.find? src with
  | none => (fs, false)
  | some bytes => if takes then ((fs.erase src).insert dst bytes, true) else (fs, false)

/-- `fs::remove`. -/
def Files.unlink (takes : Bool) (path : Bytes) (fs : Files) : Files := if takes then fs.erase path else fs

/-- How much of what is handed to the stream gets into the file. `write` neither flushes nor closes the stream
    before it asks for errors; what is still in the buffer then is written out by the destructor. -/
inductive Flush where
  | whole
  /-- The first bytes only, and the stream knows when it is asked. -/
  | seen (n : Nat)
  /-- The first bytes only, and what fails fails after the stream was asked. -/
  | unseen (n : Nat)

namespace Flush

def landed : Flush → Bytes → Bytes
  | .whole, bytes => bytes
  | .seen n, bytes => bytes.take n
  | .unseen n, bytes => bytes.take n

/-- `!ofs`, after the bytes were handed over. -/
def reported : Flush → Bool
  | .seen _ => true
  | _ => false

@[simp] theorem landed_nil (f : Flush) : f.landed [] = [] := by
  cases f <;> simp [landed]

end Flush

/-- Which of the file operations of one `write` take effect, should it come to them. -/
structure WriteSteps where
  opens : Bool := true
  flush : Flush := .whole
  renames : Bool := true
  removes : Bool := true
  renamesAgain : Bool := true

namespace FilePersistence

/-- Move the temporary file into place, at the second try over the removed record. -/
def commitRecord (e : WriteSteps) (tmp path : Bytes) (fs : Files) : Files × Bool :=
  match fs.rename e.renames tmp path with
  | (fs, true) => (fs, true)
  | (fs, false) => (fs.unlink e.removes path).rename e.renamesAgain tmp path

def write (dir : Bytes) (e : WriteSteps) (fs : Files) (scope : Scope) (bytes : Bytes) : Files × Except Error Unit :=
  let path := recordPath dir scope
  let tmp := temporaryPath dir scope
  if !e.opens then (fs, .error ⟨.persistenceIoError, "cannot open write temp"⟩)
  else
    let fs := fs.insert tmp (e.flush.landed bytes)
    if bytes ≠ [] ∧ e.flush.reported then (fs, .error ⟨.persistenceIoError, "cannot write record"⟩)
    else
      match commitRecord e tmp path fs with
      | (fs, true) => (fs, .ok ())
      | (fs, false) => (fs, .error ⟨.persistenceIoError, "cannot commit record"⟩)

/-- `read`, if the file, where there is one, can be opened. -/
def read (dir : Bytes) (fs : Files) (scope : Scope) : Except Error Bytes :=
  match fs.find? (recordPath dir scope) with
  | none => .error ⟨.persistenceIoError, "record not found"⟩
  | some bytes => .ok bytes

/-- The result of `fs::remove` is dropped. -/
def remove (dir : Bytes) (takes : Bool) (fs : Files) (scope : Scope) : Files × Except Error Unit :=
  (fs.unlink takes (recordPath dir scope), .ok ())

end FilePersistence

/-! What a write leaves. -/

/-- The old record is removed between two renames that fail. -/
structure WriteSteps.Loses (e : WriteSteps) : Prop where
  opens : e.opens = true
  renames : e.renames = false
  removes : e.removes = true
  renamesAgain : e.renamesAgain = false

/-- The first `n` bytes of a longer record are put in place. -/
structure WriteSteps.Cuts (e : WriteSteps) (n : Nat) : Prop where
  opens : e.opens = true
  flush : e.flush = .unseen n
  renames : e.renames = true ∨ e.renamesAgain = true

/-- What a write of `bytes` to `scope` makes of the records in `fs`. -/
inductive Wrote (dir : Bytes) (e : WriteSteps) (fs : Files) (scope : Scope) (bytes : Bytes) :
    Files × Except Error Unit → Prop
  | stored {fs' : Files} : e.flush.landed bytes = bytes ∨ (∃ n, e.Cuts n) →
      (∀ a, fs'.find? (recordPath dir a) =
        if sanitize a = sanitize scope then some (e.flush.landed bytes) else fs.find? (recordPath dir a)) →
      Wrote dir e fs scope bytes (fs', .ok ())
  | lost {fs' : Files} (err : Error) : e.Loses →
      (∀ a, fs'.find? (recordPath dir a) =
        if sanitize a = sanitize scope then none else fs.find? (recordPath dir a)) →
      Wrote dir e fs scope bytes (fs', .error err)
  | kept {fs' : Files} (err : Error) : (∀ a, fs'.find? (recordPath dir a) = fs.find? (recordPath dir a)) →
      Wrote dir e fs scope bytes (fs', .error err)

namespace FilePersistence
variable {dir : Bytes} {fs : Files} {scope : Scope} {bytes : Bytes}

theorem find?_insert_temporary (v : Bytes) (a : Scope) :
    (fs.insert (temporaryPath dir scope) v).find? (recordPath dir a) = fs.find? (recordPath dir a) :=
  find?_insert_ne (recordPath_ne_temporaryPath dir a scope) v

theorem find?_renamed (v : Bytes) (a : Scope) :
    ((fs.erase (temporaryPath dir scope)).insert (recordPath dir scope) v).find? (recordPath dir a) =
      if sanitize a = sanitize scope then some v else fs.find? (recordPath dir a) := by
  rw [find?_insert, find?_erase, if_neg (recordPath_ne_temporaryPath dir a scope)]
  simp only [recordPath_inj]

theorem find?_unlinked (a : Scope) : (fs.erase (recordPath dir scope)).find? (recordPath dir a) =
      if sanitize a = sanitize scope then none else fs.find? (recordPath dir a) := by
  rw [find?_erase]
  simp only [recordPath_inj]

/-- A write that was not reported is whole, or it fails unseen. -/
theorem landed_or_cuts {e : WriteSteps} (hopens : e.opens = true) (hunreported : ¬(bytes ≠ [] ∧ e.flush.reported))
    (hrenames : e.renames = true ∨ e.renamesAgain = true) : e.flush.landed bytes = bytes ∨ ∃ n, e.Cuts n := by
  cases hflush : e.flush with
  | whole => exact .inl rfl
  | seen n =>
    have hnil : bytes = [] := by
      by_contra hne
      exact hunreported ⟨hne, by rw [hflush]; rfl⟩
    exact .inl (by rw [hnil, Flush.landed_nil])
  | unseen n => exact .inr ⟨n, hopens, hflush, hrenames⟩

/-- The record is put in place at the first try, or at the second, or it is lost or stays. -/
theorem write_wrote (dir : Bytes) (e : WriteSteps) (fs : Files) (scope : Scope) (bytes : Bytes) :
    Wrote dir e fs scope bytes (write dir e fs scope bytes) := by
  obtain ⟨opens, flush, renames, removes, again⟩ := e
  have hne := recordPath_ne_temporaryPath dir scope scope
  unfold write
  simp only
  cases opens with
  | false => exact .kept _ fun _ => rfl
  | true =>
    simp only [Bool.not_true, Bool.false_eq_true, if_false]
    -- the temporary file is written
    generalize htmp : fs.insert (temporaryPath dir scope) (flush.landed bytes) = fs'
    have hsame : ∀ a, fs'.find? (recordPath dir a) = fs.find? (recordPath dir a) := fun a => by
      rw [← htmp, find?_insert_temporary]
    have hwritten : fs'.find? (temporaryPath dir scope) = some (flush.landed bytes) := by rw [← htmp, find?_insert_self]
    split
    · exact .kept _ hsame
    · next hunreported =>
      unfold commitRecord Files.rename
      simp only [hwritten]
      cases renames with
      | true =>
        exact .stored (landed_or_cuts rfl hunreported (.inl rfl)) fun a => by rw [find?_renamed, hsame]
      | false =>
        simp only [Bool.false_eq_true, if_false]
        have hstill : (Files.unlink removes (recordPath dir scope) fs').find? (temporaryPath dir scope) =
            some (flush.landed bytes) := by
          unfold Files.unlink
          split
          · rw [find?_erase, if_neg (Ne.symm hne), hwritten]
          · exact hwritten
        simp only [hstill]
        cases again with
        | true =>
          refine .stored (landed_or_cuts rfl hunreported (.inr rfl)) fun a => ?_
          rw [find?_renamed]
          split
          · rfl
          · next ha =>
            unfold Files.unlink
            split
            · rw [find?_unlinked, if_neg ha, hsame]
            · exact hsame a
        | false =>
          cases removes with
          | true => exact .lost _ ⟨rfl, rfl, rfl, rfl⟩ fun a => by rw [← hsame a]; exact find?_unlinked a
          | false => exact .kept _ hsame

/-- Where the steps lose a record, an empty write does. -/
theorem write_loses (dir : Bytes) (fs : Files) (scope : Scope) {e : WriteSteps} (h : e.Loses) :
    ∃ fs' err, write dir e fs scope [] = (fs', .error err) ∧ fs'.find? (recordPath dir scope) = none := by
  obtain ⟨opens, flush, renames, removes, again⟩ := e
  obtain ⟨rfl, rfl, rfl, rfl⟩ := h
  have hne := recordPath_ne_temporaryPath dir scope scope
  refine ⟨(fs.insert (temporaryPath dir scope) []).erase (recordPath dir scope),
    ⟨.persistenceIoError, "cannot commit record"⟩, ?_, by rw [find?_erase, if_pos rfl]⟩
  unfold write commitRecord Files.rename Files.unlink
  simp [find?_erase, Ne.symm hne]

/-- A write whose bytes raise no error and one of whose renames takes effect succeeds. -/
theorem write_succeeds (dir : Bytes) (fs : Files) (scope : Scope) (bytes : Bytes) {e : WriteSteps}
    (hopens : e.opens = true) (hunreported : e.flush.reported = false)
    (hrenames : e.renames = true ∨ e.renamesAgain = true) : ∃ fs', write dir e fs scope bytes = (fs', .ok ()) ∧
      ∀ a, fs'.find? (recordPath dir a) =
        if sanitize a = sanitize scope then some (e.flush.landed bytes) else fs.find? (recordPath dir a) := by
  have hne := recordPath_ne_temporaryPath dir scope scope
  have hok : (write dir e fs scope bytes).2 = .ok () := by
    obtain ⟨opens, flush, renames, removes, again⟩ := e
    simp only at hopens hunreported hrenames
    unfold write commitRecord Files.rename Files.unlink
    cases renames <;> cases removes <;> simp_all [find?_erase, Ne.symm hne]
  have hwrote := write_wrote dir e fs scope bytes
  generalize write dir e fs scope bytes = r at hok hwrote
  cases hwrote with
  | stored _ hfind => exact ⟨_, rfl, hfind⟩
  | lost err _ _ | kept err _ => cases hok

theorem write_fine (dir : Bytes) (fs : Files) (scope : Scope) (bytes : Bytes) :
    ∃ fs', write dir {} fs scope bytes = (fs', .ok ()) ∧ ∀ a, fs'.find? (recordPath dir a) =
      if sanitize a = sanitize scope then some bytes else fs.find? (recordPath dir a) :=
  write_succeeds dir fs scope bytes (e := {}) rfl rfl (.inl rfl)

end FilePersistence

/-! What is asked for, and what is expected. -/

inductive StoreCall where
  | write (scope : Scope) (bytes : Bytes) (e : WriteSteps)
  | remove (scope : Scope) (takes : Bool)

namespace StoreCall

def scope : StoreCall → Scope
  | .write scope _ _ => scope
  | .remove scope _ => scope

def exec (dir : Bytes) (fs : Files) : StoreCall → Files × Except Error Unit
  | .write scope bytes e => FilePersistence.write dir e fs scope bytes
  | .remove scope takes => FilePersistence.remove dir takes fs scope

/-- What the client takes to be stored after a call that returned `r`. -/
def record (m : Scope → Option Bytes) (r : Except Error Unit) : StoreCall → Scope → Option Bytes
  | .write scope bytes _ => match r with
    | .ok () => update m scope (some bytes)
    | .error _ => m
  | .remove scope _ => update m scope none

end StoreCall

/-- The files after some calls. -/
def filesAfter (dir : Bytes) (fs : Files) (calls : List StoreCall) : Files :=
  calls.foldl (fun fs c => (c.exec dir fs).1) fs

/-- The bytes of the last successful write to each scope that was not followed by its removal. -/
def recorded (dir : Bytes) : Files → List StoreCall → (Scope → Option Bytes) → Scope → Option Bytes
  | _, [], m => m
  | fs, c :: calls, m => recorded dir (c.exec dir fs).1 calls (c.record m (c.exec dir fs).2)

/-- What the file system may do. -/
structure Weather where
  writes : WriteSteps → Prop
  removes : Bool → Prop
  /-- Everything may go well. -/
  fair : writes {}

def Weather.Allows (W : Weather) : StoreCall → Prop
  | .write _ _ e => W.writes e
  | .remove _ takes => W.removes takes

/-- The calls on scopes in `S` that the environment may produce. -/
def Weather.Admits (W : Weather) (S : Set Scope) (c : StoreCall) : Prop := c.scope ∈ S ∧ W.Allows c

/-- The files are a faithful map of the scopes in `S`: after any calls on them, starting without a record of any, -/
structure Faithful (dir : Bytes) (S : Set Scope) (W : Weather) : Prop where
  /-- what is read is what was written last and not removed, -/
  reads : ∀ fs calls, (∀ a ∈ S, fs.find? (recordPath dir a) = none) → (∀ c ∈ calls, W.Admits S c) → ∀ a ∈ S,
    ∀ bytes, FilePersistence.read dir (filesAfter dir fs calls) a = .ok bytes ↔
      recorded dir fs calls (fun _ => none) a = some bytes
  /-- a call on one scope does not change what is read for another, -/
  apart : ∀ fs calls, (∀ a ∈ S, fs.find? (recordPath dir a) = none) → (∀ c ∈ calls, W.Admits S c) →
    ∀ c, W.Admits S c → ∀ a ∈ S, a ≠ c.scope →
      FilePersistence.read dir (c.exec dir (filesAfter dir fs calls)).1 a =
        FilePersistence.read dir (filesAfter dir fs calls) a
  /-- and a write that fails leaves the record it was to replace. -/
  failed : ∀ fs calls, (∀ a ∈ S, fs.find? (recordPath dir a) = none) → (∀ c ∈ calls, W.Admits S c) →
    ∀ a ∈ S, ∀ bytes e err, W.writes e →
      (FilePersistence.write dir e (filesAfter dir fs calls) a bytes).2 = .error err →
      FilePersistence.read dir (FilePersistence.write dir e (filesAfter dir fs calls) a bytes).1 a =
        FilePersistence.read dir (filesAfter dir fs calls) a

/-! The refinement. -/

/-- The records of the scopes in `S` are those of `m`. -/
def Files.Represents (dir : Bytes) (S : Set Scope) (fs : Files) (m : Scope → Option Bytes) : Prop :=
  ∀ a ∈ S, fs.find? (recordPath dir a) = m a

/-- The environment loses no record and cuts none, and the scopes have different names. -/
structure Benign (S : Set Scope) (W : Weather) : Prop where
  names : Set.InjOn sanitize S
  keeps : ∀ e, W.writes e → ¬e.Loses
  whole : ∀ e, W.writes e → ∀ n, ¬e.Cuts n
  removes : ∀ takes, W.removes takes → takes = true

theorem Benign.represents {dir : Bytes} {S : Set Scope} {W : Weather} (h : Benign S W) {fs : Files}
    {m : Scope → Option Bytes}
    {c : StoreCall} (hc : W.Admits S c) (hm : fs.Represents dir S m) :
    (c.exec dir fs).1.Represents dir S (c.record m (c.exec dir fs).2) := by
  obtain ⟨hscope, hallowed⟩ := hc
  intro a ha
  have hname : sanitize a = sanitize c.scope ↔ a = c.scope := h.names.eq_iff ha hscope
  cases c with
  | write scope bytes e =>
    have hwrote := FilePersistence.write_wrote dir e fs scope bytes
    change (FilePersistence.write dir e fs scope bytes).1.find? (recordPath dir a) =
      StoreCall.record m (FilePersistence.write dir e fs scope bytes).2 (.write scope bytes e) a
    generalize FilePersistence.write dir e fs scope bytes = r at hwrote
    cases hwrote with
    | stored hlanded hfind =>
      have hwhole := hlanded.resolve_right fun ⟨n, hcuts⟩ => h.whole e hallowed n hcuts
      rw [hfind, hm a ha, hwhole]
      simp only [StoreCall.record, update_apply]
      exact if_congr hname rfl rfl
    | lost err hloses _ => exact absurd hloses (h.keeps e hallowed)
    | kept err hfind => rw [hfind, hm a ha]; rfl
  | remove scope takes =>
    obtain rfl := h.removes takes hallowed
    change (fs.erase (recordPath dir scope)).find? (recordPath dir a) = update m scope none a
    rw [FilePersistence.find?_unlinked, hm a ha]
    simp only [update_apply]
    exact if_congr hname rfl rfl

theorem Benign.represents_all {dir : Bytes} {S : Set Scope} {W : Weather} (h : Benign S W) : ∀ (calls : List StoreCall)
    {fs : Files} {m : Scope → Option Bytes}, (∀ c ∈ calls, W.Admits S c) → fs.Represents dir S m →
      (filesAfter dir fs calls).Represents dir S (recorded dir fs calls m)
  | [], _, _, _, hm => hm
  | c :: calls, _, _, hcalls, hm =>
    h.represents_all calls (fun c' hc' => hcalls c' (mem_cons_of_mem c hc'))
      (h.represents (hcalls c mem_cons_self) hm)

theorem FilePersistence.read_eq_ok_iff {dir : Bytes} {fs : Files} {a : Scope} {bytes : Bytes} :
    read dir fs a = .ok bytes ↔ fs.find? (recordPath dir a) = some bytes := by
  unfold read
  cases fs.find? (recordPath dir a) with
  | none => simp
  | some b => simp

theorem FilePersistence.read_congr {dir : Bytes} {fs fs' : Files} {a : Scope}
    (h : fs'.find? (recordPath dir a) = fs.find? (recordPath dir a)) : read dir fs' a = read dir fs a := by
  unfold read
  rw [h]

/-- A call on another scope is not expected to change anything. -/
theorem StoreCall.record_of_ne (m : Scope → Option Bytes) (r : Except Error Unit) (c : StoreCall) {a : Scope}
    (h : a ≠ c.scope) : c.record m r a = m a := by
  cases c with
  | write scope bytes e =>
    cases r with
    | ok => exact update_of_ne h _ _
    | error => rfl
  | remove scope takes => exact update_of_ne h _ _

theorem Benign.faithful {S : Set Scope} {W : Weather} (h : Benign S W) (dir : Bytes) : Faithful dir S W where
  reads fs calls hfs hcalls a ha bytes := by
    rw [FilePersistence.read_eq_ok_iff, h.represents_all calls hcalls hfs a ha]
  apart fs calls hfs hcalls c hc a ha hne := by
    have hm := h.represents_all calls hcalls hfs
    refine FilePersistence.read_congr ?_
    rw [h.represents hc hm a ha, StoreCall.record_of_ne _ _ _ hne, hm a ha]
  failed fs calls hfs hcalls a ha bytes e err he herr := by
    have hm := h.represents_all calls hcalls hfs
    have hafter := h.represents (c := .write a bytes e) ⟨ha, he⟩ hm a ha
    refine FilePersistence.read_congr (hafter.trans ?_)
    change StoreCall.record _ (FilePersistence.write dir e (filesAfter dir fs calls) a bytes).2 (.write a bytes e) a = _
    rw [herr, hm a ha]
    rfl

/-- The files are a faithful map of the scopes in use exactly if their names differ, the environment never lets both
    renames of a write fail and the removal between them succeed, never lets bytes get lost after `write` has asked
    for errors, and never lets a removal fail. -/
theorem file_map_faithful_iff (dir : Bytes) {S : Set Scope} (hS : S.Nonempty) (W : Weather) :
    Faithful dir S W ↔ Benign S W := by
  refine ⟨fun h => ⟨fun a ha b hb hname => ?_, fun e he hloses => ?_, fun e he n hcuts => ?_, fun takes htakes => ?_⟩,
    fun h => h.faithful dir⟩
  · -- what is written to `a` is read for `b`
    by_contra hne
    obtain ⟨fs', hwrite, hfind⟩ := FilePersistence.write_fine dir .empty a []
    have hread := (h.reads .empty [.write a [] {}] (fun _ _ => rfl) (by simpa using ⟨ha, W.fair⟩) b hb []).mp
    simp only [filesAfter, recorded, foldl_cons, foldl_nil, StoreCall.exec, hwrite, StoreCall.record,
      FilePersistence.read_eq_ok_iff] at hread
    rw [hfind, if_pos hname.symm, update_of_ne (Ne.symm hne)] at hread
    cases hread rfl
  · -- a second write fails and takes the record with it
    obtain ⟨a, ha⟩ := hS
    obtain ⟨fs', hwrite, hfind⟩ := FilePersistence.write_fine dir .empty a []
    obtain ⟨fs'', err, hfails, hgone⟩ := FilePersistence.write_loses dir fs' a hloses
    have hafter : filesAfter dir .empty [.write a [] {}] = fs' := congrArg Prod.fst hwrite
    have hkept := h.failed .empty [.write a [] {}] (fun _ _ => rfl) (by simpa using ⟨ha, W.fair⟩) a ha [] e err he
    rw [hafter, hfails] at hkept
    have hread : FilePersistence.read dir fs'' a = .ok [] := by
      rw [hkept rfl, FilePersistence.read_eq_ok_iff, hfind, if_pos rfl]
    rw [FilePersistence.read_eq_ok_iff, hgone] at hread
    cases hread
  · -- of `n + 1` bytes the last is missing
    obtain ⟨a, ha⟩ := hS
    obtain ⟨fs', hwrite, hfind⟩ := FilePersistence.write_succeeds dir .empty a (replicate (n + 1) 0) hcuts.opens
      (by rw [hcuts.flush]; rfl) hcuts.renames
    have hread := (h.reads .empty [.write a (replicate (n + 1) 0) e] (fun _ _ => rfl) (by simpa using ⟨ha, he⟩) a ha
      (replicate (n + 1) 0)).mpr
    simp only [filesAfter, recorded, foldl_cons, foldl_nil, StoreCall.exec, hwrite, StoreCall.record,
      FilePersistence.read_eq_ok_iff] at hread
    rw [hfind, if_pos rfl, update_self, hcuts.flush] at hread
    have hlength := congrArg length (Option.some.inj (hread rfl))
    simp [Flush.landed] at hlength
  · -- a removed record is still read
    by_contra hfails
    obtain rfl := Bool.eq_false_of_not_eq_true hfails
    obtain ⟨a, ha⟩ := hS
    obtain ⟨fs', hwrite, hfind⟩ := FilePersistence.write_fine dir .empty a []
    have hcalls : ∀ c ∈ [StoreCall.write a [] {}, .remove a false], W.Admits S c := by
      simpa using ⟨⟨ha, W.fair⟩, ha, htakes⟩
    have hread := (h.reads .empty _ (fun _ _ => rfl) hcalls a ha []).mp
    simp only [filesAfter, recorded, foldl_cons, foldl_nil, StoreCall.exec, hwrite, StoreCall.record,
      FilePersistence.remove, Files.unlink, Bool.false_eq_true, if_false, FilePersistence.read_eq_ok_iff] at hread
    rw [hfind, if_pos rfl, update_self] at hread
    cases hread rfl

namespace Sample

/-- Files may fail to open, writes in sight, and renames, the second one only if the removal before it fails too. -/
def rough : Weather where
  writes e := (∀ n, e.flush ≠ .unseen n) ∧ (e.renames = false → e.removes = false ∨ e.renamesAgain = true)
  removes takes := takes = true
  fair := ⟨nofun, nofun⟩

theorem rough_benign : Benign {[97], [98]} rough where
  names a ha b hb hname := by
    rcases ha with rfl | rfl <;> rcases hb with rfl | rfl <;> first | rfl | exact absurd hname (by decide)
  keeps e he hloses := by
    rcases he.2 hloses.renames with hremoves | hagain
    · cases hremoves.symm.trans hloses.removes
    · cases hagain.symm.trans hloses.renamesAgain
  whole e he n hcuts := he.1 n hcuts.flush
  removes _ htakes := htakes

end Sample

/-- Two scopes where files fail to open, writes fail and renames fail. -/
theorem file_map_faithful_rough : Faithful [115] {[97], [98]} Sample.rough ∧ Sample.rough.writes { opens := false } ∧
    Sample.rough.writes { flush := .seen 1 } ∧ Sample.rough.writes { renames := false } ∧
    Sample.rough.writes { renames := false, removes := false, renamesAgain := false } :=
  ⟨(file_map_faithful_iff [115] ⟨[97], .inl rfl⟩ Sample.rough).mpr Sample.rough_benign, ⟨nofun, nofun⟩, ⟨nofun, nofun⟩,
    ⟨nofun, fun _ => .inr rfl⟩, ⟨nofun, fun _ => .inl rfl⟩⟩

/-- What is written under `a/b` is read under `a_b`; a second write of `a` that fails in both renames takes the
    record of the first with it; of a record whose bytes get lost when the stream is closed an empty one is put in
    place, and the write returns success; and a removal that fails is reported as done. -/
theorem file_map_unfaithful : (∃ fs, FilePersistence.write [115] {} .empty [97, 47, 98] [1] = (fs, .ok ()) ∧
      FilePersistence.read [115] fs [97, 95, 98] = .ok [1]) ∧
    (∃ fs fs' err, FilePersistence.write [115] {} .empty [97] [1] = (fs, .ok ()) ∧
      FilePersistence.write [115] { renames := false, renamesAgain := false } fs [97] [2] = (fs', .error err) ∧
      FilePersistence.read [115] fs [97] = .ok [1] ∧
      FilePersistence.read [115] fs' [97] = .error ⟨.persistenceIoError, "record not found"⟩) ∧
    (∃ fs fs', FilePersistence.write [115] {} .empty [97] [1] = (fs, .ok ()) ∧
      FilePersistence.write [115] { flush := .unseen 0 } fs [97] [2] = (fs', .ok ()) ∧
      FilePersistence.read [115] fs' [97] = .ok []) ∧
    ∃ fs fs', FilePersistence.write [115] {} .empty [97] [1] = (fs, .ok ()) ∧
      FilePersistence.remove [115] false fs [97] = (fs', .ok ()) ∧ FilePersistence.read [115] fs' [97] = .ok [1] :=
  ⟨⟨_, rfl, rfl⟩, ⟨_, _, _, rfl, rfl, rfl, rfl⟩, ⟨_, _, rfl, rfl, rfl⟩, ⟨_, _, rfl, rfl, rfl⟩⟩

end DecodeFabric
