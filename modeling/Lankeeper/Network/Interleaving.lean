import Lankeeper.Network.Service

/-!
# Lankeeper.Network.Interleaving — calls that overlap

`SetInterface` and `RemoveInterface` take no lock, and the web server runs each request
on its own. Here a call takes one step for each time it reads or writes the shared
config: it looks for a clash, looks up its entry, checks that a LAN interface is left,
writes the list and writes the file. Any number of calls take their steps in any order.

`lan_kept_iff`: some LAN interface is left throughout exactly if every check still holds at
the write that it allowed.
-/

namespace Lankeeper.Network

open Lib Text List Option
open scoped Firewall

/-! ## Calls -/

inductive Request
  | set (i : InterfaceConfig)
  | remove (id : Text)
deriving DecidableEq

/-- The ID by which the entry is looked up. -/
def Request.id : Request → Text
  | .set i => i.id
  | .remove id => id

/-- Does the request leave a LAN interface where it writes? -/
def Request.leavesLAN : Request → Bool
  | .set i => i.role = "lan"
  | .remove _ => false

/-- A call, by the step it takes next. -/
inductive Call
  /-- the check for another entry with the device -/
  | clash (i : InterfaceConfig)
  | lookup (r : Request)
  /-- the check that a LAN interface is left, with the index found -/
  | guard (r : Request) (idx : Nat)
  | write (r : Request) (idx : Nat)
  | append (i : InterfaceConfig)
  | save
  | done (result : Except NetworkError Unit)
  /-- the index is out of range by now, and the request's goroutine panics -/
  | crashed
deriving DecidableEq

/-- What the calls share. -/
structure Store where
  config : Config
  /-- the interfaces in the config file -/
  file : List InterfaceConfig
deriving DecidableEq

def Store.withInterfaces (st : Store) (is : List InterfaceConfig) : Store :=
  { st with config := { st.config with interfaces := is } }

/-- The first step of a call. The fields are checked before anything is read. -/
def Request.begin : Request → Call
  | .set i =>
    match validateInterfaceEntry i with
    | .error e => .done (.error e)
    | .ok () => .clash i
  | .remove id => .lookup (.remove id)

/-- What follows if there is no entry with the ID. -/
def Request.absent : Request → Call
  | .set i => .append i
  | .remove id => .done (.error (.interfaceNotFound id))

def Request.writeTo (r : Request) (idx : Nat) (is : List InterfaceConfig) : List InterfaceConfig :=
  match r with
  | .set i => is.set idx i
  | .remove _ => is.eraseIdx idx

/-- One step of a call. -/
def Call.next (saved : Bool) (st : Store) : Call → Call × Store
  | .clash i =>
    if st.config.interfaces.any fun x => x.id ≠ i.id ∧ x.device = i.device then
      (.done (.error (.duplicateInterface i.device)), st)
    else (.lookup (.set i), st)
  | .lookup r =>
    match st.config.interfaces.findIdx? (·.id = r.id) with
    | some idx => (.guard r idx, st)
    | none => (r.absent, st)
  | .guard r idx =>
    match st.config.interfaces[idx]? with
    | none => (.crashed, st)
    | some old =>
      if old.role = "lan" ∧ ¬ r.leavesLAN ∧ countLANExcept st.config r.id = 0 then
        (.done (.error .lastLANInterface), st)
      else (.write r idx, st)
  | .write r idx =>
    if idx < st.config.interfaces.length then
      (.save, st.withInterfaces (r.writeTo idx st.config.interfaces))
    else (.crashed, st)
  | .append i => (.save, st.withInterfaces (st.config.interfaces ++ [i]))
  | .save =>
    (.done (saveToFile saved), if saved then { st with file := st.config.interfaces } else st)
  | .done result => (.done result, st)
  | .crashed => (.crashed, st)

/-! ## Calls side by side -/

/-- The web server: the store, and the calls made so far. -/
structure Server where
  store : Store
  calls : List Call
deriving DecidableEq

/-- A request comes in, or one of the calls takes a step. -/
inductive Tick
  | request (r : Request)
  | advance (k : Nat) (saved : Bool)
deriving DecidableEq

def Server.step (s : Server) : Tick → Server
  | .request r => { s with calls := s.calls ++ [r.begin] }
  | .advance k saved =>
    match s.calls[k]? with
    | none => s
    | some call =>
      { store := (call.next saved s.store).2, calls := s.calls.set k (call.next saved s.store).1 }

/-- The config is as in the file, and no call has been made. -/
def Server.start (c : Config) : Server :=
  ⟨⟨c, c.interfaces⟩, []⟩

def serving : Machine Server Tick where
  Init s := ∃ c, s = Server.start c
  step := Server.step

/-! ## A LAN interface is left -/

def IsLAN (i : InterfaceConfig) : Prop :=
  i.role = "lan"

instance : DecidablePred IsLAN := fun i =>
  inferInstanceAs (Decidable (i.role = "lan"))

def HasLAN (is : List InterfaceConfig) : Prop :=
  ∃ i ∈ is, IsLAN i

/-- There is a LAN interface at another place than `idx`. -/
def LANBeside (is : List InterfaceConfig) (idx : Nat) : Prop :=
  ∃ j, j ≠ idx ∧ ∃ x, is[j]? = some x ∧ IsLAN x

instance (is : List InterfaceConfig) : Decidable (HasLAN is) :=
  inferInstanceAs (Decidable (∃ i ∈ is, IsLAN i))

/-- In memory and in the file. -/
structure Store.Reachable (st : Store) : Prop where
  memory : HasLAN st.config.interfaces
  file : HasLAN st.file

/-- What a call's check said holds at its write: if it takes a LAN interface away, then there
is another. -/
def Call.Current (is : List InterfaceConfig) : Call → Prop
  | .write r idx =>
    r.leavesLAN = false → (∃ old, is[idx]? = some old ∧ IsLAN old) → LANBeside is idx
  | _ => True

theorem hasLAN_iff (is : List InterfaceConfig) (idx : Nat) :
    HasLAN is ↔ (∃ old, is[idx]? = some old ∧ IsLAN old) ∨ LANBeside is idx := by
  unfold HasLAN LANBeside
  simp only [mem_iff_getElem?]
  constructor
  · rintro ⟨i, ⟨j, hj⟩, hlan⟩
    by_cases hji : j = idx
    · exact .inl ⟨i, hji ▸ hj, hlan⟩
    · exact .inr ⟨j, hji, i, hj, hlan⟩
  · rintro (⟨old, hold, hlan⟩ | ⟨j, -, x, hx, hlan⟩)
    · exact ⟨old, ⟨idx, hold⟩, hlan⟩
    · exact ⟨x, ⟨j, hx⟩, hlan⟩

theorem lanBeside_set (is : List InterfaceConfig) (idx : Nat) (i : InterfaceConfig) :
    LANBeside (is.set idx i) idx ↔ LANBeside is idx := by
  unfold LANBeside
  refine exists_congr fun j => and_congr_right fun hj => ?_
  rw [getElem?_set_ne (Ne.symm hj)]

/-- What a write leaves. -/
theorem hasLAN_writeTo_iff {is : List InterfaceConfig} {idx : Nat} (hidx : idx < is.length)
    (h : HasLAN is) (r : Request) : HasLAN (r.writeTo idx is) ↔ (Call.write r idx).Current is := by
  have hbeside : ((∃ old, is[idx]? = some old ∧ IsLAN old) → LANBeside is idx) ↔ LANBeside is idx := by
    rcases (hasLAN_iff is idx).mp h with hat | hother
    · simp only [hat, forall_const]
    · simp only [hother, implies_true]
  cases r with
  | set i =>
    rw [Request.writeTo, hasLAN_iff _ idx, lanBeside_set, Call.Current, hbeside]
    simp only [getElem?_set_self hidx, some.injEq, exists_eq_left', Request.leavesLAN,
      decide_eq_false_iff_not, IsLAN]
    exact or_iff_not_imp_left
  | remove id =>
    rw [Request.writeTo, Call.Current, hbeside]
    simp only [HasLAN, LANBeside, mem_eraseIdx_iff_getElem?, Request.leavesLAN, forall_const]
    constructor
    · rintro ⟨x, ⟨j, hj, hx⟩, hlan⟩
      exact ⟨j, hj, x, hx, hlan⟩
    · rintro ⟨j, hj, x, hx, hlan⟩
      exact ⟨x, ⟨j, hj, hx⟩, hlan⟩

/-- One step of one call. Only writes matter, since the file is a copy of the memory. -/
theorem next_reachable_iff {st : Store} (h : st.Reachable) (saved : Bool) (call : Call) :
    (call.next saved st).2.Reachable ↔ call.Current st.config.interfaces := by
  cases call with
  | clash i =>
    rw [Call.next]
    split_ifs <;> exact iff_of_true h trivial
  | lookup r =>
    rw [Call.next]
    split <;> exact iff_of_true h trivial
  | guard r idx =>
    rw [Call.next]
    split
    · exact iff_of_true h trivial
    · split_ifs <;> exact iff_of_true h trivial
  | write r idx =>
    rw [Call.next]
    split_ifs with hidx
    · rw [← hasLAN_writeTo_iff hidx h.memory]
      exact ⟨fun h' => h'.memory, fun hlan => ⟨hlan, h.file⟩⟩
    · refine iff_of_true h ?_
      rintro - ⟨old, hold, -⟩
      exact absurd (List.getElem?_eq_some_iff.mp hold).1 hidx
  | append i =>
    refine iff_of_true ⟨?_, h.file⟩ trivial
    obtain ⟨x, hx, hlan⟩ := h.memory
    exact ⟨x, mem_append_left _ hx, hlan⟩
  | save =>
    rw [Call.next]
    refine iff_of_true ?_ trivial
    dsimp only
    split_ifs
    · exact ⟨h.memory, h.memory⟩
    · exact h
  | done result => exact iff_of_true h trivial
  | crashed => exact iff_of_true h trivial

/-- The call that takes the step does not write on a check that no longer holds. -/
def Current (s : Server) : Tick → Prop
  | .request _ => True
  | .advance k _ => ∀ call, s.calls[k]? = some call → call.Current s.store.config.interfaces

theorem step_reachable_iff (s : Server) (e : Tick) (h : s.store.Reachable) :
    (serving.step s e).store.Reachable ↔ Current s e := by
  cases e with
  | request r => exact iff_of_true h trivial
  | advance k saved =>
    show (Server.step s (.advance k saved)).store.Reachable ↔ _
    rw [Server.step, Current]
    rcases hcall : s.calls[k]? with _ | call
    · exact iff_of_true h (by simp)
    · simp only [some.injEq, forall_eq', next_reachable_iff h]

/-! ## One call at a time -/

def Call.finished : Call → Bool
  | .done _ | .crashed => true
  | _ => false

/-- A request comes in when every call before it is finished. -/
def OneAtATime (s : Server) : Tick → Prop
  | .request _ => ∀ call ∈ s.calls, call.finished
  | .advance _ _ => True

instance (s : Server) : DecidablePred (OneAtATime s)
  | .request _ => inferInstanceAs (Decidable (∀ call ∈ s.calls, _))
  | .advance _ _ => isTrue trivial

/-- What a call knows that is alone. -/
def Call.Knows (is : List InterfaceConfig) : Call → Prop
  | .guard r idx => ∃ old, is[idx]? = some old ∧ old.id = r.id
  | call => call.Current is

/-- All calls but the last are finished. -/
structure Alone (s : Server) : Prop where
  reachable : s.store.Reachable
  finished : ∀ k, k + 1 < s.calls.length → ∀ call, s.calls[k]? = some call → call.finished
  knows : ∀ call ∈ s.calls, call.Knows s.store.config.interfaces

variable {call : Call}

theorem Call.Knows.current {is : List InterfaceConfig} (h : call.Knows is) : call.Current is := by
  cases call <;> first | exact h | trivial

theorem Request.begin_knows (is : List InterfaceConfig) (r : Request) : r.begin.Knows is := by
  cases r with
  | set i =>
    rw [Request.begin]
    split <;> trivial
  | remove id => trivial

/-- The check is made on the entry that was looked up, so that it counts the others. -/
theorem next_knows {st : Store} (saved : Bool) (h : call.Knows st.config.interfaces) :
    (call.next saved st).1.Knows (call.next saved st).2.config.interfaces := by
  cases call with
  | clash i =>
    rw [Call.next]
    split_ifs <;> trivial
  | lookup r =>
    rw [Call.next]
    split
    · rename_i idx hidx
      obtain ⟨hlt, hp, -⟩ := findIdx?_eq_some_iff_getElem.mp hidx
      exact ⟨_, getElem?_eq_getElem hlt, by simpa using hp⟩
    · cases r <;> trivial
  | guard r idx =>
    obtain ⟨old, hold, hid⟩ := h
    rw [Call.next, hold]
    dsimp only
    split_ifs with hlast
    · trivial
    rintro hleaves ⟨old', hold', hlan⟩
    obtain rfl : old' = old := by simpa [hold] using hold'.symm
    have hcount : countLANExcept st.config r.id ≠ 0 := by
      intro h0
      exact hlast ⟨hlan, by simp [hleaves], h0⟩
    rw [← Nat.pos_iff_ne_zero, countLANExcept, countP_pos_iff] at hcount
    obtain ⟨x, hx, hxlan⟩ := hcount
    obtain ⟨j, hj⟩ := mem_iff_getElem?.mp hx
    rw [decide_eq_true_eq] at hxlan
    refine ⟨j, ?_, x, hj, hxlan.2⟩
    rintro rfl
    rw [hold, some.injEq] at hj
    exact hxlan.1 (hj ▸ hid)
  | write r idx =>
    rw [Call.next]
    split_ifs <;> trivial
  | append i => trivial
  | save => trivial
  | done result => trivial
  | crashed => trivial

theorem finished_knows (is : List InterfaceConfig) (h : call.finished) : call.Knows is := by
  cases call <;> cases h <;> trivial

theorem next_finished (saved : Bool) (st : Store) (h : call.finished) :
    call.next saved st = (call, st) := by
  cases call <;> first | rfl | cases h

theorem Alone.step {s : Server} (h : Alone s) (e : Tick) (he : OneAtATime s e) :
    Alone (serving.step s e) := by
  cases e with
  | request r =>
    refine ⟨h.reachable, ?_, ?_⟩
    · intro k hk call hcall
      change k + 1 < (s.calls ++ [r.begin]).length at hk
      change (s.calls ++ [r.begin])[k]? = some call at hcall
      rw [length_append, length_singleton] at hk
      rw [getElem?_append_left (by omega)] at hcall
      exact he call (mem_of_getElem? hcall)
    · exact forall_mem_append.mpr ⟨h.knows, forall_mem_singleton.mpr (r.begin_knows _)⟩
  | advance k saved =>
    show Alone (Server.step s (.advance k saved))
    rw [Server.step]
    rcases hcall : s.calls[k]? with _ | call
    · exact h
    have hk : k < s.calls.length := (List.getElem?_eq_some_iff.mp hcall).1
    have hknows := h.knows call (mem_of_getElem? hcall)
    refine ⟨(next_reachable_iff h.reachable saved call).mpr hknows.current, ?_, ?_⟩
    · intro j hj call' hcall'
      simp only [length_set] at hj
      rw [getElem?_set] at hcall'
      split_ifs at hcall' with hkj
      · subst hkj
        have hfin := h.finished k hj call hcall
        rw [next_finished saved s.store hfin, some.injEq] at hcall'
        exact hcall' ▸ hfin
      · exact h.finished j hj call' hcall'
    · intro call' hcall'
      obtain ⟨j, hj⟩ := mem_iff_getElem?.mp hcall'
      rw [getElem?_set] at hj
      split_ifs at hj with hkj
      · rw [← some.inj hj]
        exact next_knows saved hknows
      -- another call is finished unless this one is, and then nothing changes
      by_cases hlast : j + 1 < s.calls.length
      · exact finished_knows _ (h.finished j hlast call' hj)
      · have hj' : j < s.calls.length := (List.getElem?_eq_some_iff.mp hj).1
        have hfin := h.finished k (by omega) call hcall
        dsimp only
        rw [next_finished saved s.store hfin]
        exact h.knows call' (mem_of_getElem? hj)

/-- Calls that do not overlap rely on no check that no longer holds. -/
theorem current_of_oneAtATime {s : Server} (h : Alone s) {es : List Tick}
    (hes : Machine.Guarded serving OneAtATime s es) : Machine.Guarded serving Current s es := by
  induction es generalizing s with
  | nil => trivial
  | cons e es ih =>
    refine ⟨?_, ih (h.step e hes.1) hes.2⟩
    cases e with
    | request r => trivial
    | advance k saved => exact fun call hcall => (h.knows call (mem_of_getElem? hcall)).current

/-- **A LAN interface is left.** With one at the start, one is left in memory and in the file at
every point of a run of calls exactly if no call writes on a check that no longer holds; which
none does if the calls do not overlap. -/
theorem lan_kept_iff {c : Config} (h : HasLAN c.interfaces) (es : List Tick) :
    ((∀ pre, pre <+: es → (serving.run (Server.start c) pre).store.Reachable) ↔
      Machine.Guarded serving Current (Server.start c) es) ∧
    (Machine.Guarded serving OneAtATime (Server.start c) es →
      Machine.Guarded serving Current (Server.start c) es) := by
  have hstart : (Server.start c).store.Reachable := ⟨h, h⟩
  constructor
  · exact Machine.run_iff_guarded step_reachable_iff hstart es
  · exact current_of_oneAtATime ⟨hstart, by simp [Server.start], by simp [Server.start]⟩

/-! Two LAN interfaces are removed, one after the other and at the same time. -/

def twoLANs : Config where
  interfaces := [staticLAN "lan" "eth1" "192.168.1.1/24",
    staticLAN "office" "eth2" "192.168.2.1/24"]

/-- The second request comes in when the first call is done, and is refused. -/
def removedInTurn : List Tick :=
  [.request (.remove "lan"), .advance 0 true, .advance 0 true, .advance 0 true, .advance 0 true,
    .request (.remove "office"), .advance 1 true, .advance 1 true, .advance 1 true]

/-- Both calls make their check before either writes. -/
def removedAtOnce : List Tick :=
  [.request (.remove "lan"), .request (.remove "office"), .advance 0 true, .advance 1 true,
    .advance 0 true, .advance 1 true, .advance 1 true, .advance 0 true]

theorem removedInTurn_kept : HasLAN twoLANs.interfaces ∧ ∀ pre, pre <+: removedInTurn →
    (serving.run (Server.start twoLANs) pre).store.Reachable := by
  have hlan : HasLAN twoLANs.interfaces := by decide +kernel
  have hturn : Machine.Guarded serving OneAtATime (Server.start twoLANs) removedInTurn := by
    decide +kernel
  have hkept := lan_kept_iff hlan removedInTurn
  exact ⟨hlan, hkept.1.mpr (hkept.2 hturn)⟩

theorem removedAtOnce_lost :
    HasLAN twoLANs.interfaces ∧
    (serving.run (Server.start twoLANs) removedAtOnce).store.config.interfaces = [] := by
  decide +kernel

end Lankeeper.Network
