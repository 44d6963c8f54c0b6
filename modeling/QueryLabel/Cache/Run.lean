import QueryLabel.Cache.Basic
/-!
Operations on a cache as data, so that whole histories can be spoken of. A
computation is given by how it ends.
-/

namespace QueryLabel.Cache

variable {V E : Type}

/-- How a computation ends without a value. -/
inductive Stop (E : Type)
  | failure (error : E)
  | crash

/-- An operation on a cache. -/
inductive Step (V E : Type)
  | store (key : String) (value : V)
  | fetch (key : String) (outcome : Except (Stop E) V)
  | get (key : String)
  | keys
  | configure (capacity : Capacity)
  | clear

/-- What an operation answers. A fetch also tells how often it computed. -/
inductive Reply (V E : Type)
  | done
  | fetched (answer : Except (Stop E) V) (computed : Nat)
  | found (value : Option V)
  | keys (keys : List String)

/-- Computations that may stop short, and a tally of those that were run. -/
abbrev Tally (E : Type) := ExceptT (Stop E) (StateM Nat)

/-- A computation with a known outcome. -/
def Tally.compute (outcome : Except (Stop E) V) : Tally E V := do
  modify (· + 1)
  liftExcept outcome

/-- Work on a cache. Nothing is undone where it stops short: what was written
until then stays written. -/
abbrev Work (V E : Type) := ExceptT (Stop E) (StateT (Cache V) (StateM Nat))

namespace Work

variable {α β : Type}

/-- A computation as a part of such work. The cache is locked meanwhile, so the computation has no
access to it. -/
def ofTally (compute : Tally E α) : Work V E α :=
  ExceptT.mk (StateT.lift compute.run)

/-- What comes of work, and the cache and the tally that it leaves. -/
def carryOut (work : Work V E α) (c : Cache V) (tally : Nat) :
    (Except (Stop E) α × Cache V) × Nat :=
  (work.run.run c).run tally

end Work

/-- Fetches a key with a computation whose outcome is known. -/
def fetchTally (c : Cache V) (key : String) (outcome : Except (Stop E) V) :
    Reply V E × Cache V :=
  match (fetchM key (Work.ofTally (Tally.compute outcome)) : Work V E V).carryOut c 0 with
  | ((answer, c'), computed) => (.fetched answer computed, c')

/-- Performs one operation. -/
def perform (c : Cache V) : Step V E → Reply V E × Cache V
  | .store key value => (.done, c.store key value)
  | .fetch key outcome => c.fetchTally key outcome
  | .get key => (.found (c.get? key), c)
  | .keys => (.keys c.keys, c)
  | .configure capacity => (.done, c.configure capacity)
  | .clear => (.done, c.clear)

/-- Performs operations in turn. -/
def performAll (c : Cache V) : List (Step V E) → List (Reply V E) × Cache V
  | [] => ([], c)
  | step :: steps =>
    let (reply, c') := c.perform step
    let (replies, c'') := performAll c' steps
    (reply :: replies, c'')

variable {α β : Type} {work : Work V E α} {next : α → Work V E β} {compute : Work V E V}
  {a : α} {c c' : Cache V} {key : String} {value : V} {stop : Stop E} {n n' : Nat}
  {outcome : Except (Stop E) V} {steps steps' : List (Step V E)}

theorem Work.carryOut_bind_ok (h : work.carryOut c n = ((.ok a, c'), n')) :
    (work >>= next).carryOut c n = (next a).carryOut c' n' := by
  unfold carryOut at h ⊢
  rw [ExceptT.run_bind, StateT.run_bind, StateT.run_bind, h]
  rfl

/-- Work that stops short leaves the rest undone. -/
theorem Work.carryOut_bind_error (h : work.carryOut c n = ((.error stop, c'), n')) :
    (work >>= next).carryOut c n = ((.error stop, c'), n') := by
  unfold carryOut at h ⊢
  rw [ExceptT.run_bind, StateT.run_bind, StateT.run_bind, h]
  rfl

theorem Work.carryOut_getThe :
    (getThe (Cache V) : Work V E (Cache V)).carryOut c n = ((.ok c, c), n) := rfl

theorem Work.carryOut_ofTally_compute :
    (ofTally (Tally.compute outcome) : Work V E V).carryOut c n = ((outcome, c), n + 1) := by
  cases outcome <;> rfl

/-- A fetch that finds its key neither computes nor writes. -/
theorem carryOut_fetchM_of_some (h : c.get? key = some value) :
    (fetchM key compute).carryOut c n = ((.ok value, c), n) := by
  rw [fetchM, Work.carryOut_bind_ok Work.carryOut_getThe, h]
  rfl

/-- A fetch that does not find its key writes what was computed, and nothing before that. -/
theorem carryOut_fetchM_of_ok (h : c.get? key = none)
    (hcompute : compute.carryOut c n = ((.ok value, c'), n')) :
    (fetchM key compute).carryOut c n = ((.ok value, c'.store key value), n') := by
  rw [fetchM, Work.carryOut_bind_ok Work.carryOut_getThe, h]
  exact Work.carryOut_bind_ok hcompute

/-- Where the computation stops short, the cache is as the computation has left it. -/
theorem carryOut_fetchM_of_error (h : c.get? key = none)
    (hcompute : compute.carryOut c n = ((.error stop, c'), n')) :
    (fetchM key compute).carryOut c n = ((.error stop, c'), n') := by
  rw [fetchM, Work.carryOut_bind_ok Work.carryOut_getThe, h]
  exact Work.carryOut_bind_error hcompute

theorem fetchTally_of_some (h : c.get? key = some value) :
    c.fetchTally key outcome = (.fetched (.ok value) 0, c) := by
  rw [fetchTally, carryOut_fetchM_of_some h]

theorem fetchTally_of_none_ok (h : c.get? key = none) :
    c.fetchTally key (.ok value : Except (Stop E) V) =
      (.fetched (.ok value) 1, c.store key value) := by
  rw [fetchTally, carryOut_fetchM_of_ok h Work.carryOut_ofTally_compute]

/-- A fetch that stops short leaves the cache as it was, since it writes nothing before its
computation and the computation writes nothing at all. -/
theorem fetchTally_of_none_error (h : c.get? key = none) :
    c.fetchTally key (.error stop) = (.fetched (.error stop) 1, c) := by
  rw [fetchTally, carryOut_fetchM_of_error h Work.carryOut_ofTally_compute]

/-- A full cache makes no room for a value that does not come. -/
example : ((⟨[("a", 1)], ⟨1, by decide⟩⟩ : Cache Nat).fetchTally "b"
    (.error (.failure "none"))).2.entries = [("a", 1)] := by
  decide

theorem performAll_append :
    c.performAll (steps ++ steps') =
      ((c.performAll steps).1 ++ ((c.performAll steps).2.performAll steps').1,
        ((c.performAll steps).2.performAll steps').2) := by
  induction steps generalizing c with
  | nil => rfl
  | cons step steps ih => simp [performAll, ih]

end QueryLabel.Cache
