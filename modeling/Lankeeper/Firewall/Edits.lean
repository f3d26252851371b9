import Lankeeper.Firewall.Template

/-!
# Lankeeper.Firewall.Edits — changes of the firewall config

The calls of `internal/services/firewall.go` that change the firewall config. All of them
go through `mutate`, which changes the config in memory and then writes the file. Neither
step is undone when something fails: a file that could not be written leaves the change
in memory, and `removeAt` answers a bad index with the empty list, which its callers
store. `edits_atomic_iff` says which calls leave the config alone when they fail.

The lists of the config are handled alike, so each is a `ListField`.
-/

namespace Lankeeper.Firewall

open Lib Text

/-! ## The config -/

/-- `config.TTLFixConfig`. -/
structure TTLFixConfig where
  enabled : Bool := false
  value : Int := 0

/-- `config.FirewallRule`, with its priority. -/
structure RuleEntry extends FirewallRule where
  priority : Int

/-- `config.PortForward`, with its name. -/
structure ForwardEntry extends PortForward where
  name : Text

/-- `config.FirewallConfig`. -/
structure Settings where
  defaultPolicy : Text := []
  ttlFix : TTLFixConfig := {}
  openPorts : List OpenPort := []
  portForwards : List ForwardEntry := []
  rules : List RuleEntry := []

/-- What the ruleset is rendered from. -/
def Settings.toConfig (fw : Settings) : FirewallConfig where
  ttlFixEnabled := fw.ttlFix.enabled
  ttlFixValue := fw.ttlFix.value
  openPorts := fw.openPorts
  portForwards := fw.portForwards.map (·.toPortForward)
  rules := fw.rules.map (·.toFirewallRule)

/-- Why a change is refused. -/
inductive EditError
  /-- the list, and the index that it does not have -/
  | index (what : Text) (index : Int)
  /-- `ErrInvalidTTL` -/
  | ttl (value : Int)
  -- the config file was not written
  | save
deriving DecidableEq

/-! ## Changes -/

/-- `mutate`: the change stays also if it reports an error or the file is not written. -/
def mutate (saved : Bool) (change : Settings → Except EditError Unit × Settings) (fw : Settings) :
    Except EditError Unit × Settings :=
  match change fw with
  | (.error e, next) => (.error e, next)
  | (.ok (), next) => (if saved then .ok () else .error .save, next)

/-- `removeAt`: with a bad index, the list it returns is `nil`. -/
def removeAt {α : Type} (what : Text) (index : Int) (list : List α) :
    Except EditError Unit × List α :=
  if index < 0 ∨ list.length ≤ index then (.error (.index what index), [])
  else (.ok (), list.eraseIdx index.toNat)

/-- One of the lists of the config. -/
structure ListField (α : Type) where
  /-- what its elements are called in errors -/
  what : Text
  get : Settings → List α
  set : List α → Settings → Settings
  get_set : ∀ l fw, get (set l fw) = l
  set_get : ∀ fw, set (get fw) fw = fw

namespace ListField

variable {α : Type} (F : ListField α)

def append (x : α) (fw : Settings) : Except EditError Unit × Settings :=
  (.ok (), F.set (F.get fw ++ [x]) fw)

/-- The result of `removeAt` is assigned before its error is looked at. -/
def remove (index : Int) (fw : Settings) : Except EditError Unit × Settings :=
  let r := removeAt F.what index (F.get fw)
  (r.1, F.set r.2 fw)

def modify (index : Int) (f : α → α) (fw : Settings) : Except EditError Unit × Settings :=
  if index < 0 ∨ (F.get fw).length ≤ index then (.error (.index F.what index), fw)
  else (.ok (), F.set ((F.get fw).modify index.toNat f) fw)

end ListField

def openPortList : ListField OpenPort where
  what := "open port"
  get := Settings.openPorts
  set l fw := { fw with openPorts := l }
  get_set _ _ := rfl
  set_get _ := rfl

def portForwardList : ListField ForwardEntry where
  what := "port forward"
  get := Settings.portForwards
  set l fw := { fw with portForwards := l }
  get_set _ _ := rfl
  set_get _ := rfl

def ruleList : ListField RuleEntry where
  what := "rule"
  get := Settings.rules
  set l fw := { fw with rules := l }
  get_set _ _ := rfl
  set_get _ := rfl

/-! ## The calls -/

def addOpenPort (saved : Bool) (op : OpenPort) : Settings → Except EditError Unit × Settings :=
  mutate saved (openPortList.append op)

def removeOpenPort (saved : Bool) (index : Int) : Settings → Except EditError Unit × Settings :=
  mutate saved (openPortList.remove index)

def toggleOpenPort (saved : Bool) (index : Int) (enabled : Bool) :
    Settings → Except EditError Unit × Settings :=
  mutate saved (openPortList.modify index fun op => { op with enabled := enabled })

def addPortForward (saved : Bool) (pf : ForwardEntry) :
    Settings → Except EditError Unit × Settings :=
  mutate saved (portForwardList.append pf)

def removePortForward (saved : Bool) (index : Int) : Settings → Except EditError Unit × Settings :=
  mutate saved (portForwardList.remove index)

/-- The priority of a rule that brings none: ten above the highest one, as an `int`. -/
def nextPriority (rules : List RuleEntry) : Int :=
  (rules.foldl (fun m r => max m r.priority) 0 + 10).bmod (2 ^ 64)

/-- The rule as `AddRule` stores it. -/
def withPriority (rule : RuleEntry) (rules : List RuleEntry) : RuleEntry :=
  if rule.priority = 0 then { rule with priority := nextPriority rules } else rule

def addRule (saved : Bool) (rule : RuleEntry) : Settings → Except EditError Unit × Settings :=
  mutate saved fun fw => ruleList.append (withPriority rule fw.rules) fw

def removeRule (saved : Bool) (index : Int) : Settings → Except EditError Unit × Settings :=
  mutate saved (ruleList.remove index)

def toggleRule (saved : Bool) (index : Int) (enabled : Bool) :
    Settings → Except EditError Unit × Settings :=
  mutate saved (ruleList.modify index fun r => { r with enabled := enabled })

def setTTLFix (saved : Bool) (enabled : Bool) (value : Int) (fw : Settings) :
    Except EditError Unit × Settings :=
  if value < 1 ∨ value > 255 then (.error (.ttl value), fw)
  else mutate saved (fun fw => (.ok (), { fw with ttlFix := ⟨enabled, value⟩ })) fw

/-- A call that changes the config. -/
inductive FirewallCall
  | addOpenPort (op : OpenPort)
  | removeOpenPort (index : Int)
  | toggleOpenPort (index : Int) (enabled : Bool)
  | addPortForward (pf : ForwardEntry)
  | removePortForward (index : Int)
  | addRule (rule : RuleEntry)
  | removeRule (index : Int)
  | toggleRule (index : Int) (enabled : Bool)
  | setTTLFix (enabled : Bool) (value : Int)

/-- The result of a call and the config after it. -/
def FirewallCall.apply (saved : Bool) : FirewallCall → Settings → Except EditError Unit × Settings
  | .addOpenPort op => Firewall.addOpenPort saved op
  | .removeOpenPort index => Firewall.removeOpenPort saved index
  | .toggleOpenPort index enabled => Firewall.toggleOpenPort saved index enabled
  | .addPortForward pf => Firewall.addPortForward saved pf
  | .removePortForward index => Firewall.removePortForward saved index
  | .addRule rule => Firewall.addRule saved rule
  | .removeRule index => Firewall.removeRule saved index
  | .toggleRule index enabled => Firewall.toggleRule saved index enabled
  | .setTTLFix enabled value => Firewall.setTTLFix saved enabled value

/-! ## What a call is about -/

namespace ListField

variable {α : Type} (F : ListField α)

/-- The element `x` is there in addition, at the end. -/
def Appended (x : α) (fw next : Settings) : Prop :=
  next = F.set (F.get fw ++ [x]) fw

/-- The element at `index` is gone. -/
def Removed (index : Int) (fw next : Settings) : Prop :=
  ∃ front x back, F.get fw = front ++ x :: back ∧ (front.length : Int) = index ∧
    next = F.set (front ++ back) fw

/-- The element at `index` has changed by `f`. -/
def Changed (index : Int) (f : α → α) (fw next : Settings) : Prop :=
  ∃ front x back, F.get fw = front ++ x :: back ∧ (front.length : Int) = index ∧
    next = F.set (front ++ f x :: back) fw

/-- The list has no such index. -/
def BadIndex (index : Int) (fw : Settings) : Prop :=
  index < 0 ∨ (F.get fw).length ≤ index

instance (index : Int) (fw : Settings) : Decidable (F.BadIndex index fw) :=
  inferInstanceAs (Decidable (_ ∨ _))

end ListField

/-- Only what the call addresses has changed. -/
def FirewallCall.Addressed : FirewallCall → Settings → Settings → Prop
  | .addOpenPort op => openPortList.Appended op
  | .removeOpenPort index => openPortList.Removed index
  | .toggleOpenPort index enabled => openPortList.Changed index fun op => { op with enabled := enabled }
  | .addPortForward pf => portForwardList.Appended pf
  | .removePortForward index => portForwardList.Removed index
  | .addRule rule => fun fw next => ∃ priority, (rule.priority ≠ 0 → priority = rule.priority) ∧
      ruleList.Appended { rule with priority := priority } fw next
  | .removeRule index => ruleList.Removed index
  | .toggleRule index enabled => ruleList.Changed index fun r => { r with enabled := enabled }
  | .setTTLFix enabled value => fun fw next => next = { fw with ttlFix := ⟨enabled, value⟩ }

/-- A call that failed has changed nothing, and one that succeeded only what it is about. -/
def Atomic (r : Except EditError Unit × Settings) (about : Settings → Settings → Prop)
    (fw : Settings) : Prop :=
  (∀ e, r.1 = .error e → r.2 = fw) ∧ (r.1 = .ok () → about fw r.2)

/-- What it takes: the file is written, or there is nothing to write; and an index that is
not there is asked to be removed only of an empty list. -/
def FirewallCall.Harmless (saved : Bool) (fw : Settings) : FirewallCall → Prop
  | .addOpenPort _ | .addPortForward _ | .addRule _ => saved
  | .removeOpenPort index => if openPortList.BadIndex index fw then fw.openPorts = [] else saved
  | .removePortForward index =>
    if portForwardList.BadIndex index fw then fw.portForwards = [] else saved
  | .removeRule index => if ruleList.BadIndex index fw then fw.rules = [] else saved
  | .toggleOpenPort index enabled => saved ∨ openPortList.BadIndex index fw ∨
      ∀ op, fw.openPorts[index.toNat]? = some op → op.enabled = enabled
  | .toggleRule index enabled => saved ∨ ruleList.BadIndex index fw ∨
      ∀ r, fw.rules[index.toNat]? = some r → r.enabled = enabled
  | .setTTLFix enabled value => saved ∨ (value < 1 ∨ value > 255) ∨ fw.ttlFix = ⟨enabled, value⟩

/-! ## One change -/

section Atomic

variable {saved : Bool} {change : Settings → Except EditError Unit × Settings}
  {about : Settings → Settings → Prop} {fw next : Settings}

theorem atomic_mutate_error {e : EditError} (h : change fw = (.error e, next)) :
    Atomic (mutate saved change fw) about fw ↔ next = fw := by
  unfold Atomic mutate
  rw [h]
  simp

/-- A change that is made is there whatever becomes of the file. -/
theorem atomic_mutate_ok (h : change fw = (.ok (), next)) :
    Atomic (mutate saved change fw) about fw ↔ if saved then about fw next else next = fw := by
  unfold Atomic mutate
  rw [h]
  cases saved <;> simp

end Atomic

namespace ListField

variable {α : Type} (F : ListField α) {fw : Settings}

theorem set_inj {l l' : List α} : F.set l fw = F.set l' fw ↔ l = l' := by
  constructor
  · intro h
    rw [← F.get_set l fw, h, F.get_set]
  · exact congrArg (F.set · fw)

/-- Storing a list is no change only if it is the list that is there. -/
theorem set_eq_self {l : List α} : F.set l fw = fw ↔ l = F.get fw := by
  conv_lhs => rhs; rw [← F.set_get fw]
  exact F.set_inj

theorem set_append_ne (x : α) : F.set (F.get fw ++ [x]) fw ≠ fw := by
  intro h
  have hlen := congrArg List.length (F.set_eq_self.mp h)
  simp at hlen

/-- An index that the list has splits it there. -/
theorem exists_split {index : Int} (h : ¬ F.BadIndex index fw) :
    ∃ front x back, F.get fw = front ++ x :: back ∧ (front.length : Int) = index := by
  unfold BadIndex at h
  have hlt : index.toNat < (F.get fw).length := by omega
  refine ⟨(F.get fw).take index.toNat, (F.get fw)[index.toNat], (F.get fw).drop (index.toNat + 1),
    ?_, ?_⟩
  · rw [List.getElem_cons_drop, List.take_append_drop]
  · rw [List.length_take_of_le hlt.le]
    omega

theorem remove_of_bad {index : Int} (h : F.BadIndex index fw) :
    F.remove index fw = (.error (.index F.what index), F.set [] fw) := by
  have hout : index < 0 ∨ (F.get fw).length ≤ index := h
  unfold remove removeAt
  rw [if_pos hout]

theorem modify_of_bad {index : Int} {f : α → α} (h : F.BadIndex index fw) :
    F.modify index f fw = (.error (.index F.what index), fw) :=
  if_pos h

variable {index : Int} {front back : List α} {x : α}

theorem remove_split (hin : ¬ F.BadIndex index fw) (hget : F.get fw = front ++ x :: back)
    (hlen : (front.length : Int) = index) :
    F.remove index fw = (.ok (), F.set (front ++ back) fw) := by
  unfold BadIndex at hin
  unfold remove removeAt
  rw [if_neg hin, ← hlen, hget, Int.toNat_natCast, List.eraseIdx_append_of_length_le le_rfl]
  simp

theorem modify_split {f : α → α} (hin : ¬ F.BadIndex index fw)
    (hget : F.get fw = front ++ x :: back) (hlen : (front.length : Int) = index) :
    F.modify index f fw = (.ok (), F.set (front ++ f x :: back) fw) := by
  unfold BadIndex at hin
  unfold modify
  rw [if_neg hin, ← hlen, hget, Int.toNat_natCast]
  simp [List.modify_eq_take_drop]

end ListField

/-! ## The three shapes of a call on a list -/

section Lists

variable {α : Type} (F : ListField α) (saved : Bool) (fw : Settings)

theorem atomic_append {x : Settings → α} {about : Settings → Settings → Prop}
    (h : about fw (F.set (F.get fw ++ [x fw]) fw)) :
    Atomic (mutate saved (fun fw => F.append (x fw) fw) fw) about fw ↔ saved := by
  rw [atomic_mutate_ok (by rfl)]
  cases saved
  · simpa using F.set_append_ne (x fw)
  · simpa using h

theorem atomic_remove (index : Int) :
    Atomic (mutate saved (F.remove index) fw) (F.Removed index) fw ↔
      if F.BadIndex index fw then F.get fw = [] else saved := by
  by_cases hbad : F.BadIndex index fw
  · rw [if_pos hbad, atomic_mutate_error (F.remove_of_bad hbad), F.set_eq_self]
    exact eq_comm
  · obtain ⟨front, x, back, hget, hlen⟩ := F.exists_split hbad
    rw [if_neg hbad, atomic_mutate_ok (F.remove_split hbad hget hlen), F.set_eq_self, hget]
    cases saved
    · simp
    · simpa using ⟨front, x, back, hget, hlen, rfl⟩

theorem atomic_modify (index : Int) (f : α → α) :
    Atomic (mutate saved (F.modify index f) fw) (F.Changed index f) fw ↔
      saved ∨ F.BadIndex index fw ∨ ∀ x, (F.get fw)[index.toNat]? = some x → f x = x := by
  by_cases hbad : F.BadIndex index fw
  · rw [atomic_mutate_error (F.modify_of_bad hbad)]
    simp [hbad]
  obtain ⟨front, x, back, hget, hlen⟩ := F.exists_split hbad
  have hat : (F.get fw)[index.toNat]? = some x := by
    rw [hget, ← hlen, Int.toNat_natCast]
    simp
  rw [atomic_mutate_ok (F.modify_split hbad hget hlen), F.set_eq_self, hget,
    List.append_cancel_left_eq, List.cons.injEq, and_iff_left rfl, ← hget, hat]
  cases saved
  · simp [hbad]
  · simpa using ⟨front, x, back, hget, hlen, rfl⟩

end Lists

theorem openPort_enabled_eq_self {op : OpenPort} {enabled : Bool} :
    { op with enabled := enabled } = op ↔ op.enabled = enabled := by
  cases op
  simp [eq_comm]

theorem rule_enabled_eq_self {r : RuleEntry} {enabled : Bool} :
    { r with enabled := enabled } = r ↔ r.enabled = enabled := by
  cases r with
  | mk rule priority =>
    cases rule
    simp [eq_comm]

theorem settings_ttlFix_eq_self {fw : Settings} {ttl : TTLFixConfig} :
    { fw with ttlFix := ttl } = fw ↔ fw.ttlFix = ttl := by
  cases fw
  simp [eq_comm]

/-! ## Every call -/

theorem mutate_snd (saved : Bool) (change : Settings → Except EditError Unit × Settings)
    (fw : Settings) : (mutate saved change fw).2 = (change fw).2 := by
  unfold mutate
  rcases change fw with ⟨_ | _, next⟩ <;> rfl

/-- Port forwards are those that were there, and one that is added. -/
theorem FirewallCall.mem_portForwards {saved : Bool} {call : FirewallCall} {fw : Settings}
    {pf : ForwardEntry} (h : pf ∈ (call.apply saved fw).2.portForwards) :
    pf ∈ fw.portForwards ∨ call = .addPortForward pf := by
  -- a call on another list, or on the hop limit, leaves them as they are
  have hother : ∀ {next : Settings}, next.portForwards = fw.portForwards →
      pf ∈ next.portForwards → pf ∈ fw.portForwards ∨ call = .addPortForward pf :=
    fun heq hmem => .inl (heq ▸ hmem)
  cases call with
  | addPortForward x =>
    rw [apply, Firewall.addPortForward, mutate_snd] at h
    rcases List.mem_append.mp h with h | h
    · exact .inl h
    · exact .inr (by rw [List.mem_singleton.mp h])
  | removePortForward index =>
    rw [apply, Firewall.removePortForward, mutate_snd] at h
    unfold ListField.remove removeAt at h
    by_cases hbad : index < 0 ∨ (portForwardList.get fw).length ≤ index
    · rw [if_pos hbad] at h
      cases h
    · rw [if_neg hbad] at h
      exact .inl (List.mem_of_mem_eraseIdx h)
  | setTTLFix enabled value =>
    refine hother ?_ h
    simp only [apply, Firewall.setTTLFix]
    split
    · rfl
    · rw [mutate_snd]
  | toggleOpenPort index enabled | toggleRule index enabled =>
    refine hother ?_ h
    simp only [apply, Firewall.toggleOpenPort, Firewall.toggleRule, mutate_snd, ListField.modify]
    split <;> rfl
  | removeOpenPort index | removeRule index =>
    refine hother ?_ h
    simp only [apply, Firewall.removeOpenPort, Firewall.removeRule, mutate_snd]
    rfl
  | addOpenPort op | addRule rule => exact hother rfl h

/-- A failed call leaves the config alone, and a successful one changes only what it
addresses, exactly when the call is harmless: a bad index empties the list that it should
remove from, and a change that does not reach the file stays in memory. -/
theorem edits_atomic_iff (saved : Bool) (call : FirewallCall) (fw : Settings) :
    Atomic (call.apply saved fw) call.Addressed fw ↔ call.Harmless saved fw := by
  cases call with
  | addOpenPort op => exact atomic_append openPortList saved fw rfl
  | addPortForward pf => exact atomic_append portForwardList saved fw rfl
  | addRule rule =>
    refine atomic_append ruleList saved fw ⟨(withPriority rule fw.rules).priority, ?_, ?_⟩
    · intro hset
      rw [withPriority, if_neg hset]
    · unfold ListField.Appended withPriority
      split <;> rfl
  | removeOpenPort index => exact atomic_remove openPortList saved fw index
  | removePortForward index => exact atomic_remove portForwardList saved fw index
  | removeRule index => exact atomic_remove ruleList saved fw index
  | toggleOpenPort index enabled =>
    refine (atomic_modify openPortList saved fw index _).trans ?_
    simp only [openPort_enabled_eq_self]
    rfl
  | toggleRule index enabled =>
    refine (atomic_modify ruleList saved fw index _).trans ?_
    simp only [rule_enabled_eq_self]
    rfl
  | setTTLFix enabled value =>
    change Atomic (setTTLFix saved enabled value fw) _ fw ↔ _ ∨ _ ∨ _
    by_cases hvalue : value < 1 ∨ value > 255
    · simp [setTTLFix, hvalue, Atomic]
    · rw [setTTLFix, if_neg hvalue, atomic_mutate_ok (by rfl)]
      cases saved
      · simp [hvalue, settings_ttlFix_eq_self]
      · simp [FirewallCall.Addressed]

/-- A port that is open. -/
def webPort : OpenPort where
  name := "web"
  protocol := "tcp"
  port := 443
  source := []
  enabled := true
  rateLimit := []

/-- With one open port, asking for the second to be removed is refused and closes the
first; and one that is added stays although the file was not written. -/
theorem edits_not_atomic :
    (removeOpenPort true 1 { openPorts := [webPort] }).1 = .error (.index "open port" 1) ∧
    (removeOpenPort true 1 { openPorts := [webPort] }).2.openPorts.length = 0 ∧
    (addOpenPort false webPort {}).1 = .error .save ∧
    (addOpenPort false webPort {}).2.openPorts.length = 1 := by
  decide

end Lankeeper.Firewall
