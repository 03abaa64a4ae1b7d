import Mathlib.Data.List.Basic
import Mathlib.Algebra.GroupWithZero.Nat

/- Reading binary records.

   Numbers are written little-endian (`putLE`) and read back modulo the width (`getLE_putLE`). A
   `Reader` consumes bytes and may fail; `Reads r w a` says that after `w` it has read `a`, whatever
   follows. `Coded P r w a` adds that no cut of `w` is read as anything: it holds of the fields of a
   record and is closed under sequencing and under the counted loop, so it holds of the record.

   A `Load` reads while it changes a state, and keeps what it has changed when it fails: the
   shape of a program that parses into a live object and returns at the first error. Three
   things are said of it: what it does to bytes written for it (`Loads`), that its outcome does
   not depend on the state it works on (`Blind`), and that it keeps an invariant of the state
   (`Upholds`). Each is closed under sequencing and under the counted loop. -/
namespace Lib
open List

/-! Little-endian numbers. -/

/-- The `w` low bytes of `n`, the lowest first. -/
def putLE : Nat → Nat → List UInt8
  | 0, _ => []
  | w + 1, n => UInt8.ofNat (n % 256) :: putLE w (n / 256)

def getLE : List UInt8 → Nat
  | [] => 0
  | b :: bs => b.toNat + 256 * getLE bs

@[simp] theorem length_putLE : ∀ w n : Nat, (putLE w n).length = w
  | 0, _ => rfl
  | w + 1, n => congrArg (· + 1) (length_putLE w (n / 256))

theorem getLE_putLE : ∀ w n : Nat, getLE (putLE w n) = n % 256 ^ w
  | 0, n => by simp [putLE, getLE, Nat.mod_one]
  | w + 1, n => by
    have hbyte : (UInt8.ofNat (n % 256)).toNat = n % 256 := by
      rw [UInt8.toNat_ofNat']
      omega
    calc (UInt8.ofNat (n % 256)).toNat + 256 * getLE (putLE w (n / 256))
        = n % 256 + 256 * (n / 256 % 256 ^ w) := by rw [hbyte, getLE_putLE w]
      _ = n % 256 ^ (w + 1) := by rw [Nat.pow_succ', Nat.mod_mul]

theorem getLE_lt : ∀ bytes : List UInt8, getLE bytes < 256 ^ bytes.length
  | [] => by decide
  | b :: bytes => by
    have hb : b.toNat < 256 := b.toNat_lt
    have hrest := getLE_lt bytes
    have hpow : 256 ^ (b :: bytes).length = 256 * 256 ^ bytes.length := Nat.pow_succ'
    change b.toNat + 256 * getLE bytes < _
    omega

theorem getLE_inj : ∀ {u v : List UInt8}, u.length = v.length → getLE u = getLE v → u = v
  | [], [], _, _ => rfl
  | a :: u, b :: v, hlen, h => by
    have ha : a.toNat < 256 := a.toNat_lt
    have hb : b.toNat < 256 := b.toNat_lt
    change a.toNat + 256 * getLE u = b.toNat + 256 * getLE v at h
    have hfirst : a = b := UInt8.toNat_inj.mp (by omega)
    have hrest : u = v := getLE_inj (Nat.succ.inj hlen) (by omega)
    rw [hfirst, hrest]

/-! Readers. -/

abbrev Reader (ε : Type) := StateT (List UInt8) (Except ε)

/-- The next `w` bytes as a number, or `e` if there are fewer. -/
def Reader.word {ε : Type} (w : Nat) (e : ε) : Reader ε Nat := fun bs =>
  if bs.length < w then .error e else .ok (getLE (bs.take w), bs.drop w)

/-- A part that is there only if a flag said so. -/
def Reader.optional {ε α : Type} (present : Bool) (r : Reader ε α) (absent : α) : Reader ε α :=
  if present then r else pure absent

/-- Stop with `e` if `c` holds of what has been read. -/
def Reader.failIf {ε : Type} (c : Prop) [Decidable c] (e : ε) : Reader ε Unit := fun bs =>
  if c then .error e else .ok ((), bs)

/-- On bytes that start with `w`, the reader returns `a` and leaves what follows. -/
def Reads {ε α : Type} (r : Reader ε α) (w : List UInt8) (a : α) : Prop :=
  ∀ rest, r.run (w ++ rest) = .ok (a, rest)

section Reader
variable {ε α β : Type} {c : Prop} [Decidable c] {n v : Nat} {e : ε} {r : Reader ε α} {k : α → Reader ε β}
  {w bs rest : List UInt8} {a : α} {b : β}

theorem Reader.word_short (h : bs.length < n) : (word n e).run bs = .error e := if_pos h

theorem Reader.word_enough (h : n ≤ bs.length) : (word n e).run bs = .ok (getLE (bs.take n), bs.drop n) :=
  if_neg (Nat.not_lt.mpr h)

theorem Reader.word_eq_ok :
    (word n e).run bs = .ok (v, rest) ↔ n ≤ bs.length ∧ getLE (bs.take n) = v ∧ bs.drop n = rest := by
  by_cases h : n ≤ bs.length
  · rw [word_enough h, Except.ok.injEq, Prod.mk.injEq]
    simp [h]
  · rw [word_short (Nat.not_le.mp h)]
    simp [h]

theorem Reader.failIf_eq_ok {u : Unit} : (failIf c e).run bs = .ok (u, rest) ↔ ¬ c ∧ bs = rest := by
  by_cases h : c <;> simp [failIf, StateT.run, h]

theorem Reader.pure_eq_ok {b : α} :
    (Pure.pure a : Reader ε α).run bs = .ok (b, rest) ↔ a = b ∧ bs = rest := by
  show (Except.ok (a, bs) : Except ε (α × List UInt8)) = .ok (b, rest) ↔ _
  rw [Except.ok.injEq, Prod.mk.injEq]

/-- What a sequence of readers accepts. -/
theorem Reader.bind_eq_ok :
    (r >>= k).run bs = .ok (b, rest) ↔ ∃ a bs', r.run bs = .ok (a, bs') ∧ (k a).run bs' = .ok (b, rest) := by
  rw [StateT.run_bind]
  cases r.run bs with
  | error e => simp [bind, Except.bind]
  | ok p =>
    obtain ⟨a, bs'⟩ := p
    simp [bind, Except.bind]

theorem Reader.map_eq_ok {f : α → β} :
    (f <$> r).run bs = .ok (b, rest) ↔ ∃ a, r.run bs = .ok (a, rest) ∧ f a = b := by
  rw [StateT.run_map]
  cases r.run bs with
  | error e => simp [Functor.map, Except.map]
  | ok p =>
    obtain ⟨a, bs'⟩ := p
    simp [Functor.map, Except.map, and_comm]

theorem Reads.word (n v : Nat) (e : ε) : Reads (Reader.word n e) (putLE n v) (v % 256 ^ n) := by
  intro rest
  rw [Reader.word_enough (by simp), take_left' (length_putLE n v), drop_left' (length_putLE n v),
    getLE_putLE]

/-- What is read first is out of the way. -/
theorem Reads.run_bind (h : Reads r w a) (k : α → Reader ε β) (rest : List UInt8) :
    (r >>= k).run (w ++ rest) = (k a).run rest := by
  rw [StateT.run_bind, h rest]
  rfl

theorem Reads.bind (h : Reads r w a) (hk : Reads (k a) bs b) : Reads (r >>= k) (w ++ bs) b := by
  intro rest
  rw [append_assoc, h.run_bind, hk]

theorem Reads.pure (a : α) : Reads (Pure.pure a : Reader ε α) [] a := fun _ => rfl

/-- A check that passes. -/
theorem Reader.run_failIf (hc : ¬ c) (e : ε) (k : Unit → Reader ε β) (bs : List UInt8) :
    (failIf c e >>= k).run bs = (k ()).run bs := by
  rw [StateT.run_bind, failIf_eq_ok.mpr ⟨hc, rfl⟩]
  rfl

theorem Reads.optional (h : Reads r w a) (present : Bool) (d : α) :
    Reads (Reader.optional present r d) (if present then w else []) (if present then a else d) := by
  cases present with
  | false => exact pure d
  | true => exact h

end Reader

/-! Codes that cannot be cut. -/

/-- The next `n` bytes as they are, or `e` if there are fewer. -/
def Reader.blob {ε : Type} (n : Nat) (e : ε) : Reader ε (List UInt8) := fun bs =>
  if bs.length < n then .error e else .ok (bs.take n, bs.drop n)

/-- A number of records, one after the other. -/
def Reader.times {ε α : Type} : Nat → Reader ε α → Reader ε (List α)
  | 0, _ => pure []
  | n + 1, r => do
    let a ← r
    let as ← times n r
    return a :: as

def Refuses {ε α : Type} (r : Reader ε α) (bs : List UInt8) : Prop := ∃ e, r.run bs = .error e

/-- `w` is a code of `a`. Every cut of it is refused; the whole is read as `a`, or is refused as well, for a reason of
    its own and whatever follows. Under `P` it is read. -/
structure Coded {ε α : Type} (P : Prop) (r : Reader ε α) (w : List UInt8) (a : α) : Prop where
  cut : ∀ v, v <+: w → v ≠ w → Refuses r v
  whole : Reads r w a ∨ ∀ rest, Refuses r (w ++ rest)
  reads : P → Reads r w a

section Coded
variable {ε α β : Type} {P c : Prop} [Decidable c] {r : Reader ε α} {k : α → Reader ε β} {w v : List UInt8} {a : α}
  {b : β}

theorem Refuses.bind (h : Refuses r w) (k : α → Reader ε β) : Refuses (r >>= k) w := by
  obtain ⟨e, he⟩ := h
  refine ⟨e, ?_⟩
  rw [StateT.run_bind, he]
  rfl

theorem Refuses.failIf (hc : c) (e : ε) (bs : List UInt8) : Refuses (Reader.failIf c e) bs := ⟨e, if_pos hc⟩

theorem Reads.refuses_bind (h : Reads r w a) (hk : Refuses (k a) v) : Refuses (r >>= k) (w ++ v) := by
  obtain ⟨e, he⟩ := hk
  exact ⟨e, (h.run_bind k v).trans he⟩

/-- What is refused after a code is refused. -/
theorem Coded.refuses_bind (h : Coded P r w a) (hk : Refuses (k a) v) : Refuses (r >>= k) (w ++ v) := by
  rcases h.whole with hreads | hrefuses
  · exact hreads.refuses_bind hk
  · exact (hrefuses v).bind k

-- A cut of `w ++ v` ends inside `w`, or between the two, or inside `v`.
theorem Coded.bind (h : Coded P r w a) (hk : Coded P (k a) v b) : Coded P (r >>= k) (w ++ v) b where
  cut := by
    rintro u ⟨t, ht⟩ hne
    rcases append_eq_append_iff.mp ht with ⟨c, rfl, rfl⟩ | ⟨c, rfl, rfl⟩
    · by_cases hc : c = []
      · subst hc
        rw [append_nil] at h hne
        have hv : [] ≠ v := by
          rintro rfl
          exact hne (append_nil u).symm
        have hcut := h.refuses_bind (hk.cut [] nil_prefix hv)
        rwa [append_nil] at hcut
      · have hu : u ≠ u ++ c := by simpa using hc
        exact (h.cut u (prefix_append u c) hu).bind k
    · have hct : c ≠ c ++ t := by
        intro heq
        exact hne (congrArg (w ++ ·) heq)
      exact h.refuses_bind (hk.cut c (prefix_append c t) hct)
  whole := by
    rcases h.whole with hreads | hrefuses
    · rcases hk.whole with hreads' | hrefuses'
      · exact .inl (hreads.bind hreads')
      · refine .inr fun rest => ?_
        rw [append_assoc]
        exact hreads.refuses_bind (hrefuses' rest)
    · refine .inr fun rest => ?_
      rw [append_assoc]
      exact (hrefuses _).bind k
  reads hP := (h.reads hP).bind (hk.reads hP)

theorem Reads.coded (h : Reads r w a) (hcut : ∀ v, v <+: w → v ≠ w → Refuses r v) : Coded P r w a :=
  ⟨hcut, .inl h, fun _ => h⟩

theorem Coded.pure (a : α) : Coded P (Pure.pure a : Reader ε α) [] a :=
  (Reads.pure a).coded fun _ hv hne => absurd (prefix_nil.mp hv) hne

theorem Coded.map (h : Coded P r w a) (f : α → β) : Coded P (f <$> r) w (f a) := by
  have hbind := h.bind (k := fun a => Pure.pure (f a)) (pure (f a))
  rwa [append_nil, bind_pure_comp] at hbind

/-- A check that passes. -/
theorem Coded.failIf (hc : ¬ c) (e : ε) : Coded P (Reader.failIf c e) [] () := by
  have hreads : Reads (Reader.failIf c e) [] () := fun rest => Reader.failIf_eq_ok.mpr ⟨hc, rfl⟩
  exact hreads.coded fun _ hv hne => absurd (prefix_nil.mp hv) hne

theorem length_lt_of_cut (h : v <+: w) (hne : v ≠ w) : v.length < w.length :=
  Nat.lt_of_le_of_ne h.length_le fun heq => hne (h.eq_of_length heq)

theorem Coded.word (n x : Nat) (e : ε) : Coded P (Reader.word n e) (putLE n x) (x % 256 ^ n) := by
  refine (Reads.word n x e).coded fun _ hv hne => ?_
  have hlt := length_lt_of_cut hv hne
  rw [length_putLE] at hlt
  exact ⟨e, Reader.word_short hlt⟩

theorem Coded.blob (b : List UInt8) (e : ε) : Coded P (Reader.blob b.length e) b b := by
  have hreads : Reads (Reader.blob b.length e) b b := by
    intro rest
    have hlen : ¬ (b ++ rest).length < b.length := by simp
    show (if (b ++ rest).length < b.length then _ else _) = _
    rw [if_neg hlen, take_left, drop_left]
  exact hreads.coded fun v hv hne => ⟨e, if_pos (length_lt_of_cut hv hne)⟩

theorem Coded.times {ι : Type} {r : Reader ε ι} {write : ι → List UInt8} :
    ∀ (items : List ι), (∀ i ∈ items, Coded P r (write i) i) →
      Coded P (Reader.times items.length r) (items.flatMap write) items
  | [], _ => pure []
  | i :: items, h => by
    have hrest := times items fun j hj => h j (mem_cons_of_mem i hj)
    have hall := (h i mem_cons_self).bind (k := fun i => Reader.times items.length r >>= fun is => Pure.pure (i :: is))
      (hrest.bind (pure (i :: items)))
    rwa [append_nil] at hall

end Coded

/-! Reading into a state. -/

abbrev Load (σ ε : Type) := StateT (List UInt8) (ExceptT ε (StateM σ))

namespace Load
variable {σ ε α β : Type}

/-- What `m` makes of the bytes and the state: its outcome, and the state it leaves in either case. -/
def exec (m : Load σ ε α) (bs : List UInt8) (s : σ) : Except ε (α × List UInt8) × σ := (m.run bs).run.run s

def read (r : Reader ε α) : Load σ ε α := fun bs => ExceptT.mk (pure (r.run bs))

def change (f : σ → σ) : Load σ ε Unit := fun bs => ExceptT.mk fun s => (.ok ((), bs), f s)

def fail (e : ε) : Load σ ε α := fun _ => ExceptT.mk (pure (.error e))

/-- Repeat `body` a number of times. -/
def times : Nat → Load σ ε Unit → Load σ ε Unit
  | 0, _ => pure ()
  | n + 1, body => do
    body
    times n body

theorem exec_bind (m : Load σ ε α) (k : α → Load σ ε β) (bs : List UInt8) (s : σ) : (m >>= k).exec bs s =
      match m.exec bs s with
      | (.ok (a, rest), t) => (k a).exec rest t
      | (.error e, t) => (.error e, t) := by
  unfold exec
  rw [StateT.run_bind, ExceptT.run_bind, StateT.run_bind]
  rcases (m.run bs).run.run s with ⟨e | ⟨a, rest⟩, t⟩ <;> rfl

@[simp] theorem exec_read (r : Reader ε α) (bs : List UInt8) (s : σ) : (read r).exec bs s = (r.run bs, s) := rfl

@[simp] theorem exec_change (f : σ → σ) (bs : List UInt8) (s : σ) :
    (change f : Load σ ε Unit).exec bs s = (.ok ((), bs), f s) := rfl

theorem exec_change_bind (f : σ → σ) (k : Unit → Load σ ε β) (bs : List UInt8) (s : σ) :
    (change f >>= k).exec bs s = (k ()).exec bs (f s) := rfl

@[simp] theorem exec_fail (e : ε) (bs : List UInt8) (s : σ) : (fail e : Load σ ε α).exec bs s = (.error e, s) := rfl

end Load

/-- On bytes that start with `w`, `m` takes the state from `s` to `t`, returns `a` and leaves what follows. -/
def Loads {σ ε α : Type} (m : Load σ ε α) (s : σ) (w : List UInt8) (a : α) (t : σ) : Prop :=
  ∀ rest, m.exec (w ++ rest) s = (.ok (a, rest), t)

/-- The outcome of `m` does not depend on the state. -/
def Blind {σ ε α : Type} (m : Load σ ε α) : Prop := ∀ bs s t, (m.exec bs s).1 = (m.exec bs t).1

/-- Whatever `r` reads satisfies `Q`. -/
def Yields {ε α : Type} (Q : α → Prop) (r : Reader ε α) : Prop := ∀ bs a rest, r.run bs = .ok (a, rest) → Q a

/-- Whether it fails or not, `m` keeps `I`. -/
def Upholds {σ ε α : Type} (I : σ → Prop) (m : Load σ ε α) : Prop := ∀ bs s, I s → I (m.exec bs s).2

section Load
variable {σ ε α β : Type} {s t u : σ} {w v : List UInt8} {a : α} {b : β} {m : Load σ ε α} {k : α → Load σ ε β}
  {r : Reader ε α} {body : Load σ ε Unit}

theorem Loads.exec_bind (h : Loads m s w a t) (k : α → Load σ ε β) (rest : List UInt8) :
    (m >>= k).exec (w ++ rest) s = (k a).exec rest t := by
  rw [Load.exec_bind, h rest]

theorem Loads.bind (h : Loads m s w a t) (hk : Loads (k a) t v b u) : Loads (m >>= k) s (w ++ v) b u := by
  intro rest
  rw [append_assoc, h.exec_bind, hk]

theorem Loads.read (h : Reads r w a) (s : σ) : Loads (Load.read r) s w a s := by
  intro rest
  rw [Load.exec_read, h rest]

/-- A record is read and entered. -/
theorem Loads.enter (h : Reads r w a) (f : α → σ → σ) (s : σ) :
    Loads (Load.read r >>= fun a => Load.change (f a)) s w () (f a s) := by
  intro rest
  rw [(read h s).exec_bind, Load.exec_change]

/-- A counted loop over what was written for the items of a list. -/
theorem Loads.times {ι : Type} {write : ι → List UInt8} {step : σ → ι → σ} :
    ∀ (items : List ι) (s : σ), (∀ i ∈ items, ∀ s, Loads body s (write i) () (step s i)) →
      Loads (Load.times items.length body) s (items.flatMap write) () (items.foldl step s)
  | [], s, _ => fun _ => rfl
  | i :: items, s, h => by
    have hfirst := h i mem_cons_self s
    have hrest := times items (step s i) fun j hj => h j (mem_cons_of_mem i hj)
    exact hfirst.bind hrest

theorem Blind.bind (h : Blind m) (hk : ∀ a, Blind (k a)) : Blind (m >>= k) := by
  intro bs s t
  have hm := h bs s t
  rw [Load.exec_bind, Load.exec_bind]
  rcases hs : m.exec bs s with ⟨e | ⟨a, rest⟩, s'⟩ <;> rcases ht : m.exec bs t with ⟨e' | ⟨a', rest'⟩, t'⟩ <;>
    rw [hs, ht] at hm
  · exact congrArg Except.error (Except.error.inj hm)
  · cases hm
  · cases hm
  · obtain ⟨rfl, rfl⟩ := Prod.mk.inj (Except.ok.inj hm)
    exact hk a rest s' t'

theorem Blind.read (r : Reader ε α) : Blind (Load.read r : Load σ ε α) := fun _ _ _ => rfl
theorem Blind.change (f : σ → σ) : Blind (Load.change f : Load σ ε Unit) := fun _ _ _ => rfl
theorem Blind.fail (e : ε) : Blind (Load.fail e : Load σ ε α) := fun _ _ _ => rfl
theorem Blind.pure (a : α) : Blind (Pure.pure a : Load σ ε α) := fun _ _ _ => rfl

theorem Blind.times (h : Blind body) : ∀ n, Blind (Load.times n body)
  | 0 => pure ()
  | n + 1 => h.bind fun _ => times h n

variable {I : σ → Prop}

theorem Upholds.bind (h : Upholds I m) (hk : ∀ a, Upholds I (k a)) : Upholds I (m >>= k) := by
  intro bs s hs
  have hm := h bs s hs
  rw [Load.exec_bind]
  rcases hr : m.exec bs s with ⟨e | ⟨a, rest⟩, t⟩ <;> rw [hr] at hm
  · exact hm
  · exact hk a rest t hm

/-- What follows a read may rely on what the reader yields. -/
theorem Upholds.read_bind {Q : α → Prop} (hr : Yields Q r) (hk : ∀ a, Q a → Upholds I (k a)) :
    Upholds I (Load.read r >>= k) := by
  intro bs s hs
  rw [Load.exec_bind, Load.exec_read]
  rcases hread : r.run bs with e | ⟨a, rest⟩
  · exact hs
  · exact hk a (hr bs a rest hread) rest s hs

theorem Upholds.read (r : Reader ε α) : Upholds I (Load.read r) := fun _ _ hs => hs
theorem Upholds.change {f : σ → σ} (h : ∀ s, I s → I (f s)) : Upholds I (Load.change f : Load σ ε Unit) := fun _ => h
theorem Upholds.fail (e : ε) : Upholds I (Load.fail e : Load σ ε α) := fun _ _ hs => hs
theorem Upholds.pure (a : α) : Upholds I (Pure.pure a : Load σ ε α) := fun _ _ hs => hs

theorem Upholds.times (h : Upholds I body) : ∀ n, Upholds I (Load.times n body)
  | 0 => pure ()
  | n + 1 => h.bind fun _ => times h n

variable {R : α → Prop} {Q : β → Prop}

theorem Yields.pure (h : R a) : Yields R (Pure.pure a : Reader ε α) := by
  intro bs b rest hb
  obtain ⟨rfl, -⟩ := Reader.pure_eq_ok.mp hb
  exact h

/-- What one reader yields is known to the next. -/
theorem Yields.chain (hr : Yields R r) {k : α → Reader ε β} (h : ∀ a, R a → Yields Q (k a)) :
    Yields Q (r >>= k) := by
  intro bs b rest hb
  obtain ⟨a, bs', ha, hk⟩ := Reader.bind_eq_ok.mp hb
  exact h a (hr bs a bs' ha) bs' b rest hk

theorem Yields.bind (r : Reader ε α) {k : α → Reader ε β} (h : ∀ a, Yields Q (k a)) :
    Yields Q (r >>= k) :=
  chain (R := fun _ => True) (fun _ _ _ _ => trivial) fun a _ => h a

theorem Yields.failIf (c : Prop) [Decidable c] (e : ε) : Yields (fun _ => ¬ c) (Reader.failIf c e) :=
  fun _ _ _ h => (Reader.failIf_eq_ok.mp h).1

theorem Yields.blob (n : Nat) (e : ε) : Yields (fun b => b.length = n) (Reader.blob n e) := by
  intro bs b rest hb
  change (if bs.length < n then Except.error e else .ok (bs.take n, bs.drop n)) = .ok (b, rest) at hb
  split at hb
  · cases hb
  · next hlong =>
    cases hb
    exact length_take_of_le (Nat.not_lt.mp hlong)

theorem Yields.times (hr : Yields R r) :
    ∀ n, Yields (fun as => ∀ a ∈ as, R a) (Reader.times n r)
  | 0 => pure (forall_mem_nil _)
  | n + 1 => by
    refine hr.chain fun a ha => (times hr n).chain fun as has => pure ?_
    exact forall_mem_cons.mpr ⟨ha, has⟩

end Load

/-! Texts of labelled fields. -/

/-- A list is cut in one way at the first `c`. -/
theorem cut_at {α : Type} {c : α} : ∀ {a b r r' : List α}, c ∉ a → c ∉ b → a ++ c :: r = b ++ c :: r' → a = b ∧ r = r'
  | [], [], _, _, _, _, h => ⟨rfl, (cons.inj h).2⟩
  | [], y :: b, _, _, _, hb, h => absurd ((cons.inj h).1 ▸ mem_cons_self) hb
  | x :: a, [], _, _, ha, _, h => absurd ((cons.inj h).1 ▸ mem_cons_self) ha
  | x :: a, y :: b, r, r', ha, hb, h => by
    obtain ⟨hxy, hrest⟩ := cons.inj h
    obtain ⟨hab, hr⟩ := cut_at (fun hc => ha (mem_cons_of_mem _ hc)) (fun hc => hb (mem_cons_of_mem _ hc)) hrest
    exact ⟨by rw [hxy, hab], hr⟩

/-- A field ends where the label of the next one starts, if it is free of the label's first character. -/
theorem cut_label {α : Type} {c : α} {label : List α} (hlabel : label.head? = some c) {a b r r' : List α}
    (ha : c ∉ a) (hb : c ∉ b) (h : a ++ (label ++ r) = b ++ (label ++ r')) : a = b ∧ r = r' := by
  obtain ⟨t, rfl⟩ := head?_eq_some_iff.mp hlabel
  obtain ⟨hab, hr⟩ := cut_at ha hb h
  exact ⟨hab, append_cancel_left hr⟩

/-- A decimal number has digits only. -/
theorem not_mem_toString {c : Char} (hc : c.isDigit = false) (n : Nat) : c ∉ (toString n).toList := by
  intro hmem
  rw [Nat.toString_eq_repr, Nat.toList_repr] at hmem
  rw [Nat.isDigit_of_mem_toDigits (by decide) (by decide) hmem] at hc
  cases hc

theorem toString_inj {m n : Nat} (h : (toString m).toList = (toString n).toList) : m = n := by
  rw [Nat.toString_eq_repr, Nat.toString_eq_repr, Nat.toList_repr, Nat.toList_repr] at h
  calc m = Nat.ofDigitChars 10 (Nat.toDigits 10 m) 0 := (Nat.ofDigitChars_toDigits (by decide) (by decide)).symm
    _ = Nat.ofDigitChars 10 (Nat.toDigits 10 n) 0 := by rw [h]
    _ = n := Nat.ofDigitChars_toDigits (by decide) (by decide)

end Lib
