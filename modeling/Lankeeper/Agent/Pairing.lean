import Lankeeper.Agent.Client

/-!
# Lankeeper.Agent.Pairing — every call gets the reply to its own request

A reply is not matched with a request by its number: a call takes the next one that comes.
That it is the right one rests on the state of the connection between two calls: no request
and no reply is on its way, or the agent has closed it. `Stage` says how far the exchange of
the call that holds the mutex has come, and the invariant is that the connection the client
keeps is always at some stage. A call that fails drops the connection, whatever its stage.

`reply_is_own` is the result for all runs of `Lankeeper.Agent.Client`.
-/

namespace Lankeeper.Agent.Client

open Lib Stream Option Function

variable {ι ρ : Type} {log log' : List (Nat × Response ρ)} {t : Trip} {l : Link ι ρ} {n : Nat}

/-! ## Stages of an exchange -/

/-- What the call that holds the mutex does on the connection. -/
inductive Trip
  | none
  | sending (n : Nat)
  | receiving (n : Nat)

/-- What is on its way to the agent before it has read the request. -/
def Trip.Upward : Trip → List (Piece Nat) → Prop
  | none, cs => cs = []
  | sending n, cs => Begun n cs
  | receiving n, cs => Complete n cs

/-- The agent made the reply for this request, or refused the connection. -/
def Answers (log : List (Nat × Response ρ)) (n : Nat) (r : Response ρ) : Prop :=
  r = busy ∨ (r.id = some n ∧ (n, r) ∈ log)

/-- What is on its way to the client on a connection that the agent has closed. -/
def LeftOver (log : List (Nat × Response ρ)) (t : Trip) (cs : List (Piece (Response ρ))) : Prop :=
  cs = [] ∨ ∃ r, (r = busy ∨ ∃ n, t = .receiving n ∧ Answers log n r) ∧
    (Begun r cs ∨ Complete r cs)

/-- How far the exchange has come. -/
inductive Stage (log : List (Nat × Response ρ)) : Trip → Link ι ρ → Prop
  /-- the request has not been read -/
  | quiet {t : Trip} {l : Link ι ρ} (hs : l.serving = .pending ∨ l.serving = .reading)
      (hup : t.Upward (l.got ++ l.up)) (hdown : l.gathered ++ l.down = []) : Stage log t l
  | refusing {t : Trip} {l : Link ι ρ} (hs : l.serving = .refusing)
      (hdown : Begun busy (l.gathered ++ l.down)) : Stage log t l
  | handling {n : Nat} {l : Link ι ρ} (hs : l.serving = .handling n)
      (hup : l.got ++ l.up = []) (hdown : l.gathered ++ l.down = []) : Stage log (.receiving n) l
  | replying {n : Nat} {r : Response ρ} {l : Link ι ρ} (hs : l.serving = .replying r)
      (hup : l.got ++ l.up = []) (hr : Answers log n r)
      (hdown : Begun r (l.gathered ++ l.down)) : Stage log (.receiving n) l
  | replied {n : Nat} {r : Response ρ} {l : Link ι ρ} (hs : l.serving = .reading)
      (hup : l.got ++ l.up = []) (hr : Answers log n r)
      (hdown : Complete r (l.gathered ++ l.down)) : Stage log (.receiving n) l
  | closed {t : Trip} {l : Link ι ρ} (hs : l.serving = .closed)
      (hdown : LeftOver log t (l.gathered ++ l.down)) : Stage log t l

theorem Answers.mono (hlog : log ⊆ log') {r : Response ρ} (h : Answers log n r) :
    Answers log' n r :=
  h.imp_right fun h => ⟨h.1, hlog h.2⟩

theorem LeftOver.mono (hlog : log ⊆ log') {cs : List (Piece (Response ρ))}
    (h : LeftOver log t cs) : LeftOver log' t cs := by
  rcases h with h | ⟨r, hr, hcs⟩
  · exact .inl h
  · refine .inr ⟨r, hr.imp_right ?_, hcs⟩
    rintro ⟨n, ht, ha⟩
    exact ⟨n, ht, ha.mono hlog⟩

/-- The stage goes by what is on its way, and by what the agent does. -/
theorem Stage.congr {l' : Link ι ρ} (h : Stage log t l) (hlog : log ⊆ log')
    (hserving : l'.serving = l.serving) (hsent : l'.got ++ l'.up = l.got ++ l.up)
    (hcome : l'.gathered ++ l'.down = l.gathered ++ l.down) : Stage log' t l' := by
  cases h with
  | quiet hs hup hdown => exact .quiet (hserving ▸ hs) (hsent ▸ hup) (hcome ▸ hdown)
  | refusing hs hdown => exact .refusing (hserving ▸ hs) (hcome ▸ hdown)
  | handling hs hup hdown => exact .handling (hserving ▸ hs) (hsent ▸ hup) (hcome ▸ hdown)
  | replying hs hup hr hdown =>
    exact .replying (hserving ▸ hs) (hsent ▸ hup) (hr.mono hlog) (hcome ▸ hdown)
  | replied hs hup hr hdown =>
    exact .replied (hserving ▸ hs) (hsent ▸ hup) (hr.mono hlog) (hcome ▸ hdown)
  | closed hs hdown => exact .closed (hserving ▸ hs) (hcome ▸ hdown.mono hlog)

theorem Stage.mono (hlog : log ⊆ log') (h : Stage log t l) : Stage log' t l :=
  h.congr hlog rfl rfl rfl

/-- The deadline is not part of the stage. -/
theorem Stage.pulled (h : Stage log t l) (p : Option ι) : Stage log t { l with pulled := p } :=
  h.congr (List.Subset.refl _) rfl rfl rfl

/-! ## Steps of the client -/

theorem stage_fresh : Stage log .none ({} : Link ι ρ) :=
  .quiet (.inl rfl) rfl rfl

/-- The client moves on before it waits for the reply. -/
theorem Stage.upward {t' : Trip} {up : List (Piece Nat)} (h : Stage log t l)
    (ht : ∀ m, t ≠ .receiving m) (hup : t.Upward (l.got ++ l.up) → t'.Upward (l.got ++ up)) :
    Stage log t' { l with up := up } := by
  cases h with
  | quiet hs hsent hdown => exact .quiet hs (hup hsent) hdown
  | refusing hs hdown => exact .refusing hs hdown
  | closed hs hdown =>
    refine .closed hs (hdown.imp_right ?_)
    rintro ⟨r, hr | ⟨m, hm, -⟩, hcs⟩
    · exact ⟨r, .inl hr, hcs⟩
    · exact absurd hm (ht m)
  | _ => exact absurd rfl (ht _)

/-- A call begins to send on the connection it found. -/
theorem Stage.start (h : Stage log .none l) (n : Nat) : Stage log (.sending n) l := by
  refine h.upward nofun fun hempty => ?_
  rw [show l.got ++ l.up = [] from hempty]
  exact begun_nil n

theorem Stage.push (h : Stage log (.sending n) l) (last : Bool) :
    Stage log (if last then .receiving n else .sending n) { l with up := l.up ++ [⟨n, last⟩] } := by
  refine h.upward nofun fun hbegun => ?_
  rw [← List.append_assoc]
  cases last with
  | true => exact Begun.finish hbegun
  | false => exact Begun.push hbegun

/-- A piece of the reply is read, and not the last. -/
theorem Stage.gather (h : Stage log t l) {c : Piece (Response ρ)}
    {rest : List (Piece (Response ρ))} (hc : l.down = c :: rest) :
    Stage log t { l with down := rest, gathered := l.gathered ++ [c] } := by
  refine h.congr (List.Subset.refl _) rfl rfl ?_
  rw [hc]
  exact List.append_cons .. |>.symm

/-- The last piece is read: it is a reply to this request, and leaves the connection as
a next call may find it. -/
theorem Stage.take (h : Stage log (.receiving n) l) {c : Piece (Response ρ)}
    {rest : List (Piece (Response ρ))} (hc : l.down = c :: rest) (hlast : c.last) :
    Stage log .none { l with down := rest, gathered := [] } ∧
      Answers log n (message l.gathered c) := by
  have hne : l.gathered ++ l.down ≠ [] := by
    rw [hc]
    simp
  cases h with
  | quiet hs hup hdown => exact absurd hdown hne
  | handling hs hup hdown => exact absurd hdown hne
  | refusing hs hdown =>
    rw [hc] at hdown
    rw [hdown.not_last] at hlast
    cases hlast
  | replying hs hup hr hdown =>
    rw [hc] at hdown
    rw [hdown.not_last] at hlast
    cases hlast
  | replied hs hup hr hdown =>
    rw [hc] at hdown
    obtain ⟨rfl, hmsg⟩ := hdown.read hlast
    exact ⟨.quiet (.inr hs) hup rfl, hmsg ▸ hr⟩
  | closed hs hdown =>
    rcases hdown with h | ⟨r, hr, hbegun | hcomplete⟩
    · exact absurd h hne
    · rw [hc] at hbegun
      rw [hbegun.not_last] at hlast
      cases hlast
    rw [hc] at hcomplete
    obtain ⟨rfl, hmsg⟩ := hcomplete.read hlast
    refine ⟨.closed hs (.inl rfl), ?_⟩
    rw [hmsg]
    rcases hr with hr | ⟨m, hm, ha⟩
    · exact .inl hr
    · cases hm
      exact ha

/-! ## Steps of the agent -/

theorem Stage.hangUp (h : Stage log t l) : Stage log t { l with serving := .closed } := by
  refine .closed rfl ?_
  cases h with
  | quiet hs hup hdown => exact .inl hdown
  | refusing hs hdown => exact .inr ⟨busy, .inl rfl, .inl hdown⟩
  | handling hs hup hdown => exact .inl hdown
  | replying hs hup hr hdown => exact .inr ⟨_, .inr ⟨_, rfl, hr⟩, .inl hdown⟩
  | replied hs hup hr hdown => exact .inr ⟨_, .inr ⟨_, rfl, hr⟩, .inr hdown⟩
  | closed hs hdown => exact hdown

/-- A piece of the request is read; the last one makes it a request to be handled. -/
theorem Stage.read (h : Stage log t l) : Stage log t (l.serve .read) := by
  unfold Link.serve
  dsimp only
  split
  · rename_i c rest hserving hup'
    -- while the agent reads, only a connection at the first stage has something to read
    cases h with
    | quiet hs hup hdown =>
      rw [hup'] at hup
      split_ifs with hlast
      · cases t with
        | none =>
          have hempty : l.got ++ c :: rest = [] := hup
          simp at hempty
        | sending n =>
          have hbegun : Begun n (l.got ++ c :: rest) := hup
          rw [hbegun.not_last] at hlast
          cases hlast
        | receiving n =>
          have hcomplete : Complete n (l.got ++ c :: rest) := hup
          obtain ⟨rfl, hmsg⟩ := hcomplete.read hlast
          exact .handling (congrArg Serving.handling hmsg) rfl hdown
      · have hsame : l.got ++ [c] ++ rest = l.got ++ c :: rest := by simp
        exact .quiet hs (hsame ▸ hup) hdown
    | replied hs hup hr hdown =>
      rw [hup'] at hup
      simp at hup
    | refusing hs _ | handling hs _ _ | replying hs _ _ _ | closed hs _ =>
      cases hserving.symm.trans hs
  · exact h.hangUp
  · exact h

/-- Whatever the agent does leaves the exchange at a stage. -/
theorem Stage.serve (h : Stage log t l) (e : ServerEvent ρ) :
    Stage ((l.answer e).toList ++ log) t (l.serve e) := by
  cases e with
  | read => exact h.read
  | hangUp => exact h.hangUp
  | accept =>
    unfold Link.serve
    dsimp only
    split
    · rename_i hserving
      cases h with
      | quiet hs hup hdown => exact .quiet (.inr rfl) hup hdown
      | _ => simp_all
    · exact h
  | refuse =>
    unfold Link.serve
    dsimp only
    split
    · rename_i hserving
      cases h with
      | quiet hs hup hdown =>
        refine .refusing rfl ?_
        dsimp only
        rw [hdown]
        exact begun_nil _
      | _ => simp_all
    · exact h
  | refuseWrite last =>
    unfold Link.serve
    dsimp only
    split
    · rename_i hserving
      cases h with
      | refusing hs hdown =>
        cases last with
        | true =>
          refine .closed rfl (.inr ⟨busy, .inl rfl, .inr ?_⟩)
          dsimp only
          rw [← List.append_assoc]
          exact hdown.finish
        | false =>
          refine .refusing rfl ?_
          dsimp only
          rw [← List.append_assoc]
          exact hdown.push
      | _ => simp_all
    · exact h
  | finish o =>
    unfold Link.serve Link.answer
    dsimp only
    split
    · rename_i m hserving
      cases h with
      | handling hs hup hdown =>
        cases hserving.symm.trans hs
        refine .replying rfl hup (.inr ⟨rfl, List.mem_cons_self⟩) ?_
        dsimp only
        rw [hdown]
        exact begun_nil _
      | _ => simp_all
    · exact h
  | write last =>
    unfold Link.serve
    dsimp only
    split
    · rename_i r hserving
      cases h with
      | replying hs hup hr hdown =>
        cases hserving.symm.trans hs
        cases last with
        | true =>
          refine .replied rfl hup hr ?_
          dsimp only
          rw [← List.append_assoc]
          exact hdown.finish
        | false =>
          refine .replying rfl hup hr ?_
          dsimp only
          rw [← List.append_assoc]
          exact hdown.push
      | _ => simp_all
    · exact h

/-! ## All calls -/

/-- The call holds the mutex. -/
def Phase.Holding : Phase ι ρ → Prop
  | locked | checked | connected _ | sending _ _ | receiving _ _ => True
  | _ => False

/-- The call has taken the connection for its own. -/
def Phase.OnLink : Phase ι ρ → Nat → Prop
  | connected k', k | sending _ k', k | receiving _ k', k => k' = k
  | _, _ => False

def Phase.trip : Phase ι ρ → Trip
  | sending n _ => .sending n
  | receiving n _ => .receiving n
  | _ => .none

/-- The number of the request of a call. -/
def Phase.id : Phase ι ρ → Option Nat
  | sending n _ | receiving n _ | returned (.reply n _) => some n
  | _ => none

theorem Phase.OnLink.holding {p : Phase ι ρ} {k : Nat} (h : p.OnLink k) : p.Holding := by
  cases p with
  | locked | checked | connected _ | sending _ _ | receiving _ _ => trivial
  | idle | waiting | returned _ => exact h

def State.trip (s : State ι ρ) : Trip :=
  match s.mu with
  | none => .none
  | some i => (s.phase i).trip

structure Inv (s : State ι ρ) : Prop where
  holder : ∀ i, (s.phase i).Holding → s.mu = some i
  onConn : ∀ i k, (s.phase i).OnLink k → s.conn = some k
  stage : ∀ k, s.conn = some k → Stage s.log s.trip (s.link k)
  ids : ∀ i n, (s.phase i).id = some n → n < s.nextID
  distinct : ∀ i j n, (s.phase i).id = some n → (s.phase j).id = some n → i = j
  replies : ∀ i n r, s.phase i = .returned (.reply n r) → Answers s.log n r

variable [DecidableEq ι] {s s' : State ι ρ} {i : ι} {p : Phase ι ρ}

/-- A step that moves one call. What is left to show is about that call and about the
connection. -/
theorem Inv.move (h : Inv s) (hphase : s'.phase = update s.phase i p)
    (hlog : s'.log = s.log) (hnext : s.nextID ≤ s'.nextID) (hholder : p.Holding → s'.mu = some i)
    (hothers : ∀ j, j ≠ i → (s.phase j).Holding → s'.mu = some j)
    (honConn : ∀ k, p.OnLink k → s'.conn = some k)
    (hconn : ∀ j k, j ≠ i → (s.phase j).OnLink k → s'.conn = some k)
    (hstage : ∀ k, s'.conn = some k → Stage s.log s'.trip (s'.link k))
    (hid : ∀ n, p.id = some n → (s.phase i).id = some n ∨ (n = s.nextID ∧ n < s'.nextID))
    (hreply : ∀ n r, p = .returned (.reply n r) → Answers s.log n r) : Inv s' := by
  -- every call is the one that moved or stands where it stood
  have hall : ∀ P : ι → Phase ι ρ → Prop, P i p → (∀ j, j ≠ i → P j (s.phase j)) →
      ∀ j, P j (s'.phase j) := by
    intro P hself hother
    rw [hphase, forall_update_iff]
    exact ⟨hself, hother⟩
  -- the number of the request is new, or it is the one that the call had
  have hfresh : ∀ j n, j ≠ i → (s.phase j).id = some n → p.id ≠ some n := by
    intro j n hj hjn hp
    rcases hid n hp with hold | ⟨hnew, -⟩
    · exact hj (h.distinct j i n hjn hold)
    · have hlt := h.ids j n hjn
      omega
  constructor
  · exact hall (fun j x => x.Holding → s'.mu = some j) hholder hothers
  · exact hall (fun _ x => ∀ k, x.OnLink k → s'.conn = some k) honConn fun j hj k => hconn j k hj
  · intro k hk
    rw [hlog]
    exact hstage k hk
  · refine hall (fun _ x => ∀ n, x.id = some n → n < s'.nextID) ?_ ?_
    · intro n hn
      rcases hid n hn with hold | ⟨-, hnew⟩
      · have hlt := h.ids i n hold
        omega
      · exact hnew
    · intro j _ n hn
      have hlt := h.ids j n hn
      omega
  · refine hall (fun j x => ∀ j' n, x.id = some n → (s'.phase j').id = some n → j = j') ?_ ?_
    · refine hall (fun j' x' => ∀ n, p.id = some n → x'.id = some n → i = j') (fun _ _ _ => rfl) ?_
      intro j' hj' n hn hn'
      exact absurd hn (hfresh j' n hj' hn')
    · intro j hj
      refine hall (fun j' x' => ∀ n, (s.phase j).id = some n → x'.id = some n → j = j') ?_ ?_
      · intro n hn hn'
        exact absurd hn' (hfresh j n hj hn)
      · exact fun j' _ n hn hn' => h.distinct j j' n hn hn'
  · rw [hlog]
    exact hall (fun _ x => ∀ n r, x = .returned (.reply n r) → Answers s.log n r) hreply
      fun j _ n r hj => h.replies j n r hj

section Holding

variable (h : Inv s) (hi : (s.phase i).Holding)

include h hi

omit [DecidableEq ι] in
/-- While a call holds the mutex, no other does. -/
theorem Inv.not_holding {j : ι} (hj : j ≠ i) : ¬ (s.phase j).Holding := by
  intro hholding
  have h₁ := h.holder i hi
  have h₂ := h.holder j hholding
  rw [h₁] at h₂
  exact hj (some.inj h₂).symm

omit [DecidableEq ι] in
theorem Inv.trip_eq : s.trip = (s.phase i).trip := by
  unfold State.trip
  rw [h.holder i hi]

/-- The call that holds the mutex moves on under it. -/
theorem Inv.advance (hp : p.Holding) (hphase : s'.phase = update s.phase i p)
    (hlog : s'.log = s.log) (hmu : s'.mu = s.mu) (hnext : s.nextID ≤ s'.nextID)
    (honConn : ∀ k, p.OnLink k → s'.conn = some k)
    (hstage : ∀ k, s'.conn = some k → Stage s.log p.trip (s'.link k))
    (hid : ∀ n, p.id = some n → (s.phase i).id = some n ∨ (n = s.nextID ∧ n < s'.nextID)) :
    Inv s' := by
  have hholder : s'.mu = some i := hmu.trans (h.holder i hi)
  have htrip : s'.trip = p.trip := by
    unfold State.trip
    rw [hholder]
    dsimp only
    rw [hphase, update_self]
  refine h.move hphase hlog hnext (fun _ => hholder) ?_ honConn ?_ ?_ hid ?_
  · intro j hj hholding
    exact absurd hholding (h.not_holding hi hj)
  · intro j k hj hon
    exact absurd hon.holding (h.not_holding hi hj)
  · intro k hk
    rw [htrip]
    exact hstage k hk
  · rintro n r rfl
    exact hp.elim

variable {r : Return ι ρ}

/-- The call that holds the mutex returns. -/
theorem Inv.leave (hphase : s'.phase = update s.phase i (.returned r)) (hlog : s'.log = s.log)
    (hmu : s'.mu = none) (hnext : s'.nextID = s.nextID)
    (hstage : ∀ k, s'.conn = some k → Stage s.log .none (s'.link k))
    (hreply : ∀ n r', r = .reply n r' → (s.phase i).id = some n ∧ Answers s.log n r') : Inv s' := by
  have htrip : s'.trip = .none := by
    unfold State.trip
    rw [hmu]
  refine h.move hphase hlog (Nat.le_of_eq hnext.symm) nofun ?_ nofun ?_ ?_ ?_ ?_
  · intro j hj hholding
    exact absurd hholding (h.not_holding hi hj)
  · intro j k hj hon
    exact absurd hon.holding (h.not_holding hi hj)
  · intro k hk
    rw [htrip]
    exact hstage k hk
  · intro n hn
    cases r with
    | reply m r' =>
      cases hn
      exact .inl (hreply n r' rfl).1
    | ctx | dial | params | io | deadline _ => cases hn
  · rintro n r' ⟨⟩
    exact (hreply n r' rfl).2

theorem Inv.fail (hr : ∀ n r', r ≠ .reply n r') : Inv (s.fail i r) := by
  refine h.leave hi rfl rfl rfl rfl nofun ?_
  intro n r' heq
  split_ifs at heq
  · exact absurd heq (hr n r')

omit [DecidableEq ι] in
/-- A call that holds the mutex and has no exchange under way: the connection is free. -/
theorem Inv.free (htrip : (s.phase i).trip = .none) {k : Nat} (hk : s.conn = some k) :
    Stage s.log .none (s.link k) := by
  have hstage := h.stage k hk
  rwa [h.trip_eq hi, htrip] at hstage

theorem Inv.ret (htrip : (s.phase i).trip = .none) (hr : ∀ n r', r ≠ .reply n r') : Inv (s.ret i r) :=
  h.leave hi rfl rfl rfl rfl (fun _ hk => h.free hi htrip hk) fun n r' heq => absurd heq (hr n r')

end Holding

omit [DecidableEq ι] in
/-- A call at work on a connection. -/
theorem Inv.working (h : Inv s) (hphase : s.phase i = p) {k : Nat} (hon : p.OnLink k) :
    (s.phase i).Holding ∧ s.conn = some k ∧ Stage s.log p.trip (s.link k) := by
  subst hphase
  have hconn := h.onConn i k hon
  refine ⟨hon.holding, hconn, ?_⟩
  rw [← h.trip_eq hon.holding]
  exact h.stage k hconn

theorem Inv.dial (h : Inv s) (i : ι) (ok : Bool) : Inv (step s (.dial i ok : Event ι ρ)) := by
  unfold step
  dsimp only
  split
  · rename_i k hphase hconn
    have hi : (s.phase i).Holding := by rw [hphase]; trivial
    refine h.advance hi (p := .connected k) trivial rfl rfl rfl (Nat.le_refl _) ?_ ?_
      fun _ hn => by cases hn
    · intro k' hk'
      rwa [← show k = k' from hk']
    · intro k' hk'
      exact h.free hi (by rw [hphase]; rfl) hk'
  · rename_i hphase hconn
    have hi : (s.phase i).Holding := by rw [hphase]; trivial
    split_ifs
    · refine h.advance hi (p := .connected s.nextConn) trivial rfl rfl rfl (Nat.le_refl _) ?_ ?_
        fun _ hn => by cases hn
      · intro k' hk'
        rw [← show s.nextConn = k' from hk']
      · rintro k' ⟨⟩
        simp only [State.setLink, State.setPhase, update_self]
        exact stage_fresh
    · exact h.ret hi (by rw [hphase]; rfl) (by simp)
  · exact h

theorem Inv.build (h : Inv s) (i : ι) (ok : Bool) : Inv (step s (.build i ok : Event ι ρ)) := by
  unfold step
  dsimp only
  split
  · rename_i k hphase
    obtain ⟨hi, hconn, hfree⟩ := h.working hphase rfl
    split_ifs
    · refine h.advance hi (p := .sending s.nextID k) trivial rfl rfl rfl (Nat.le_succ _) ?_ ?_ ?_
      · intro k' hk'
        rwa [← show k = k' from hk']
      · intro k' hk'
        obtain rfl : k = k' := some.inj (hconn.symm.trans hk')
        show Stage s.log (.sending s.nextID) _
        simpa [State.setLink, State.setPhase, State.setWatch] using (hfree.start s.nextID).pulled none
      · rintro n ⟨⟩
        exact .inr ⟨rfl, Nat.lt_succ_self _⟩
    · exact h.ret hi (by rw [hphase]; rfl) (by simp)
  · exact h

theorem Inv.send (h : Inv s) (i : ι) (last : Bool) : Inv (step s (.send i last : Event ι ρ)) := by
  unfold step
  dsimp only
  split
  · rename_i n k hphase
    obtain ⟨hi, hconn, hstage⟩ := h.working hphase rfl
    split
    · exact h.fail hi nofun
    refine h.advance hi (p := if last then .receiving n k else .sending n k) ?_ rfl rfl rfl (Nat.le_refl _)
      ?_ ?_ ?_
    · cases last <;> trivial
    · intro k' hk'
      have hkk : k = k' := by cases last <;> exact hk'
      rwa [← hkk]
    · intro k' hk'
      obtain rfl : k = k' := some.inj (hconn.symm.trans hk')
      have hpush := hstage.push last
      have htrip : (if last then Phase.receiving n k else .sending n k : Phase ι ρ).trip =
          if last then .receiving n else .sending n := by
        cases last <;> rfl
      rw [htrip]
      simpa [State.setLink, State.setPhase] using hpush
    · intro m hm
      left
      rw [hphase]
      cases last <;> exact hm
  · exact h

theorem Inv.recv (h : Inv s) (i : ι) : Inv (step s (.recv i : Event ι ρ)) := by
  unfold step
  dsimp only
  split
  · rename_i n k hphase
    obtain ⟨hi, hconn, hstage⟩ := h.working hphase rfl
    rcases hp : (s.link k).pulled with _ | j <;> rcases hdown : (s.link k).down with _ | ⟨c, rest⟩
    · exact h
    · dsimp only
      split_ifs with hlast
      · -- the reply is complete: the call returns it and leaves the connection free
        obtain ⟨hfree, hanswers⟩ := hstage.take hdown hlast
        refine h.leave hi rfl rfl rfl rfl ?_ ?_
        · intro k' hk'
          obtain rfl : k = k' := some.inj (hconn.symm.trans hk')
          simpa [State.setLink, State.ret, State.setPhase, hp] using hfree
        · rintro m r' ⟨⟩
          exact ⟨by rw [hphase]; rfl, hanswers⟩
      · have hgather := hstage.gather hdown
        refine ⟨h.holder, h.onConn, ?_, h.ids, h.distinct, h.replies⟩
        intro k' hk'
        obtain rfl : k = k' := some.inj (hconn.symm.trans hk')
        show Stage s.log s.trip _
        rw [h.trip_eq hi, hphase]
        simpa [State.setLink, hp] using hgather
    all_goals exact h.fail hi (by simp)
  · exact h

/-- A call outside the mutex moves on. -/
theorem Inv.outside (h : Inv s) (hi : (s.phase i).trip = .none) (hp : p.trip = .none)
    (hphase : s'.phase = update s.phase i p) (hlog : s'.log = s.log)
    (hnext : s'.nextID = s.nextID) (hconn : s'.conn = s.conn) (hlink : s'.link = s.link)
    (hmu : s'.mu = s.mu ∨ s.mu = none ∧ s'.mu = some i)
    (hholder : p.Holding → s'.mu = some i) (honLink : ∀ k, ¬ p.OnLink k) (hid : p.id = none) :
    Inv s' := by
  have hself : s'.phase i = p := by rw [hphase, update_self]
  have htrip : s'.trip = s.trip := by
    unfold State.trip
    rcases hmu with hmu | ⟨hnone, hmu⟩
    · rw [hmu]
      cases hj : s.mu with
      | none => rfl
      | some j =>
        rcases eq_or_ne j i with rfl | hji
        · dsimp only
          rw [hself, hp, hi]
        · dsimp only
          rw [hphase, update_of_ne hji]
    · rw [hmu, hnone]
      dsimp only
      rw [hself, hp]
  refine h.move hphase hlog (Nat.le_of_eq hnext.symm) hholder ?_ ?_ ?_ ?_ ?_ ?_
  · intro j _ hj
    have hmuj := h.holder j hj
    rcases hmu with hmu | ⟨hnone, -⟩
    · rw [hmu, hmuj]
    · cases hnone.symm.trans hmuj
  · intro k hk
    exact absurd hk (honLink k)
  · intro j k _ hj
    rw [hconn]
    exact h.onConn j k hj
  · intro k hk
    rw [htrip, hlink]
    exact h.stage k (hconn ▸ hk)
  · intro n hn
    cases hid.symm.trans hn
  · rintro n r rfl
    cases hid

omit [DecidableEq ι] in
/-- The agent does something on a connection. -/
theorem Inv.server (h : Inv s) [DecidableEq ι] (k : Nat) (e : ServerEvent ρ) :
    Inv (step s (.server k e : Event ι ρ)) := by
  have hlog : s.log ⊆ ((s.link k).answer e).toList ++ s.log :=
    fun x hx => List.mem_append_right _ hx
  refine ⟨h.holder, h.onConn, ?_, h.ids, h.distinct, ?_⟩
  · intro k' hk'
    have hstage := h.stage k' hk'
    show Stage _ s.trip (update s.link k ((s.link k).serve e) k')
    rcases eq_or_ne k' k with rfl | hk
    · rw [update_self]
      exact hstage.serve e
    · rw [update_of_ne hk]
      exact hstage.mono hlog
  · intro i n r hr
    exact (h.replies i n r hr).mono hlog

theorem Inv.step (h : Inv s) (e : Event ι ρ) : Inv (step s e) := by
  cases e with
  | dial i ok => exact h.dial i ok
  | build i ok => exact h.build i ok
  | send i last => exact h.send i last
  | recv i => exact h.recv i
  | server k e => exact h.server k e
  | enter i =>
    unfold Client.step
    dsimp only
    split
    · rename_i hphase
      have hi : (s.phase i).trip = .none := by rw [hphase]; rfl
      split_ifs
      · exact h.outside hi rfl rfl rfl rfl rfl rfl (.inl rfl) nofun nofun rfl
      · exact h.outside hi rfl rfl rfl rfl rfl rfl (.inl rfl) nofun nofun rfl
    · exact h
  | lock i =>
    unfold Client.step
    dsimp only
    split
    · rename_i hphase hmu
      have hi : (s.phase i).trip = .none := by rw [hphase]; rfl
      exact h.outside (p := .locked) hi rfl rfl rfl rfl rfl rfl (.inr ⟨hmu, rfl⟩) (fun _ => rfl)
        nofun rfl
    · exact h
  | check i =>
    unfold Client.step
    dsimp only
    split
    · rename_i hphase
      have hi : (s.phase i).Holding := by rw [hphase]; trivial
      have htrip : (s.phase i).trip = .none := by rw [hphase]; rfl
      split_ifs
      · exact h.ret hi htrip nofun
      · exact h.advance hi (p := .checked) trivial rfl rfl rfl (Nat.le_refl _) nofun
          (fun _ hk => h.free hi htrip hk) nofun
    · exact h
  | ioFails i =>
    unfold Client.step
    dsimp only
    split
    · rename_i hphase
      exact h.fail (by rw [hphase]; trivial) nofun
    · rename_i hphase
      exact h.fail (by rw [hphase]; trivial) nofun
    · exact h
  | cancel i => exact ⟨h.holder, h.onConn, h.stage, h.ids, h.distinct, h.replies⟩
  | close =>
    unfold Client.step
    dsimp only
    split_ifs with hmu
    · refine ⟨h.holder, ?_, nofun, h.ids, h.distinct, h.replies⟩
      intro i k hk
      have hholder := h.holder i hk.holding
      rw [hholder] at hmu
      cases hmu
    · exact h
  | wake i =>
    unfold Client.step
    dsimp only
    split
    · split_ifs
      · exact ⟨h.holder, h.onConn, h.stage, h.ids, h.distinct, h.replies⟩
      · exact h
    · exact h
  | pull i =>
    unfold Client.step
    dsimp only
    split
    · rename_i k _
      refine ⟨h.holder, h.onConn, ?_, h.ids, h.distinct, h.replies⟩
      intro k' hk'
      have hstage := h.stage k' hk'
      show Stage s.log s.trip (update s.link k { s.link k with pulled := some i } k')
      by_cases hk : k' = k
      · subst hk
        rw [update_self]
        exact hstage.pulled _
      · rw [update_of_ne hk]
        exact hstage
    · exact h
  | leave i =>
    unfold Client.step
    dsimp only
    split
    · exact ⟨h.holder, h.onConn, h.stage, h.ids, h.distinct, h.replies⟩
    · exact h

theorem Inv.init (hs : system.Init s) : Inv s := by
  obtain ⟨hphase, -, -, hconn, -⟩ := hs
  constructor
  · intro i hi
    rw [hphase i] at hi
    exact hi.elim
  · intro i k hi
    rw [hphase i] at hi
    exact hi.elim
  · simp [hconn]
  all_goals
    intro i
    rw [hphase i]
    exact nofun

/-- **A call that returns a result returns the agent's reply to its own request.** Its
request is number `n`; what it read is marked with that number, is what the agent made of
the request with that number, and no other call has it for its own. -/
theorem reply_is_own {ι ρ : Type} [DecidableEq ι] {s : State ι ρ}
    (hs : system.Reachable (fun _ _ => True) s) {i : ι} {n : Nat} {r : Response ρ} {v : ρ}
    (hi : s.phase i = .returned (.reply n r)) (hv : r.outcome = .result v) :
    r.id = some n ∧ (n, r) ∈ s.log ∧ ∀ j, (s.phase j).id = some n → j = i := by
  have hinv : Inv s :=
    hs.invariant (P := Inv) (fun _ h => Inv.init h) (fun _ e h _ => Inv.step h e)
  have hid : (s.phase i).id = some n := by
    rw [hi]
    rfl
  rcases hinv.replies i n r hi with rfl | ⟨hr, hlog⟩
  · cases hv
  · exact ⟨hr, hlog, fun j hj => hinv.distinct j i n hj hid⟩

/-- Both calls of the orderly run get their own replies. -/
theorem reply_is_own_orderly :
    (system.run fresh orderly).phase true = .returned (.reply 1 ⟨some 1, .result ()⟩) ∧
      (1, ⟨some 1, .result ()⟩) ∈ (system.run fresh orderly).log := by
  have hreach : system.Reachable (fun _ _ => True) (system.run fresh orderly) := by
    refine (Machine.Reachable.init fresh_init).run ?_
    repeat' constructor
  have hphase : (system.run fresh orderly).phase true =
      .returned (.reply 1 ⟨some 1, .result ()⟩) := rfl
  exact ⟨hphase, (reply_is_own hreach hphase rfl).2.1⟩

/-- **One call at a time.** In whatever order calls, contexts and watchers come, a call
that has taken a connection holds the mutex, that connection is the one the client keeps,
and no other call has any. -/
theorem one_call_on_connection {ι ρ : Type} [DecidableEq ι] {s : State ι ρ}
    (hs : system.Reachable (fun _ _ => True) s) {i j : ι} {k k' : Nat}
    (hi : (s.phase i).OnLink k) (hj : (s.phase j).OnLink k') :
    i = j ∧ k = k' ∧ s.mu = some i ∧ s.conn = some k := by
  have hinv : Inv s :=
    hs.invariant (P := Inv) (fun _ h => Inv.init h) (fun _ e h _ => Inv.step h e)
  have hmu := hinv.holder i hi.holding
  have hconn := hinv.onConn i k hi
  refine ⟨?_, ?_, hmu, hconn⟩
  · exact some.inj (hmu.symm.trans (hinv.holder j hj.holding))
  · exact some.inj (hconn.symm.trans (hinv.onConn j k' hj))

/-- A call is about to send, and another one waits for the mutex. -/
def contended : List (Event Bool Unit) :=
  opening true ++ [.enter false, .lock false]

theorem opening_alone :
    (system.run fresh contended).phase false = .waiting ∧
      (system.run fresh contended).mu = some true ∧ (system.run fresh contended).conn = some 0 := by
  have hreach : system.Reachable (fun _ _ => True) (system.run fresh contended) := by
    refine (Machine.Reachable.init fresh_init).run ?_
    repeat' constructor
  exact ⟨rfl, (one_call_on_connection (i := true) (j := true) hreach rfl rfl).2.2⟩

end Lankeeper.Agent.Client
