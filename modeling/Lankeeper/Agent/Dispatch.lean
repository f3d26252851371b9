import Lankeeper.Lib.Text

/-!
# Lankeeper.Agent.Dispatch — the time a handler gets

`dispatch` and `requestedTimeout` of `internal/agent/server.go`. A request names its budget in
milliseconds. The agent turns it into nanoseconds in 64 bits, and compares the product with the
limit of 15 minutes after it may have wrapped. `budget_kept_iff` says which budgets arrive.
-/

namespace Lankeeper.Agent.Dispatch

open Lib Text

structure Request (ν : Type) where
  jsonrpc : Text
  method : Text
  params : Text
  id : ν
  timeoutMS : Int64

structure RPCError where
  code : Int
  message : Text

structure Response (ν ρ : Type) where
  jsonrpc : Text := "2.0"
  result : Option ρ := none
  error : Option RPCError := none
  id : ν

/-- A context has a deadline or not, in nanoseconds. -/
structure Context where
  deadline : Option Int
deriving DecidableEq

/-- `context.WithTimeout`. -/
def Context.withTimeout (now : Int) (d : Int64) (ctx : Context) : Context :=
  match ctx.deadline with
  | none => ⟨some (now + d.toInt)⟩
  | some t => ⟨some (min t (now + d.toInt))⟩

abbrev Handler (ρ : Type) := Context → Text → Except Text ρ

def maxRequestedTimeout : Int64 := 900000000000

def requestedTimeout (ms : Int64) : Int64 :=
  if ms ≤ 0 then 0
  else
    let d := ms * 1000000
    if d > maxRequestedTimeout then maxRequestedTimeout else d

variable {ν : Type}

/-- The context of the handler. -/
def handlerContext (now : Int) (ctx : Context) (req : Request ν) : Context :=
  if requestedTimeout req.timeoutMS > 0 then ctx.withTimeout now (requestedTimeout req.timeoutMS)
  else ctx

/-- The response to what the handler returned. -/
def respond {ρ : Type} (req : Request ν) : Except Text ρ → Response ν ρ
  | .error e => { error := some ⟨-32000, e⟩, id := req.id }
  | .ok result => { result := some result, id := req.id }

def dispatch {ρ : Type} (handlers : Text → Option (Handler ρ)) (now : Int) (ctx : Context)
    (req : Request ν) : Response ν ρ :=
  if req.jsonrpc ≠ "2.0" then
    { error := some ⟨-32600, "invalid JSON-RPC version"⟩, id := req.id }
  else
    match handlers req.method with
    | none => { error := some ⟨-32601, "method not found: " ++ req.method⟩, id := req.id }
    | some handler => respond req (handler (handlerContext now ctx req) req.params)

/-- The budget of a request, in nanoseconds. -/
def budget (ms : Int64) : Int :=
  min (ms.toInt * 1000000) 900000000000

/-- Whatever the handler, it runs with the budget. The context of a connection has no deadline. -/
def BudgetKept (req : Request ν) : Prop :=
  ∀ (ρ : Type) (handlers : Text → Option (Handler ρ)) (handler : Handler ρ) (now : Int),
    handlers req.method = some handler →
      dispatch handlers now ⟨none⟩ req =
        respond req (handler ⟨some (now + budget req.timeoutMS)⟩ req.params)

/-- Up to 15 minutes the product does not wrap. -/
theorem toInt_product {ms : Int64} (hpos : 0 < ms.toInt) (hle : ms.toInt ≤ 900000) :
    (ms * 1000000).toInt = ms.toInt * 1000000 := by
  have hmul : (ms * 1000000).toInt = (ms.toInt * 1000000).bmod (2 ^ 64) := Int64.toInt_mul ..
  rw [hmul, Int.bmod_eq_of_le (by omega) (by omega)]

theorem toInt_requestedTimeout {ms : Int64} (hpos : 0 < ms) :
    (requestedTimeout ms).toInt = min (ms * 1000000).toInt 900000000000 := by
  have hmax : maxRequestedTimeout.toInt = 900000000000 := by decide
  rw [requestedTimeout, if_neg (Int64.not_le.mpr hpos)]
  simp only [gt_iff_lt, Int64.lt_iff_toInt_lt, hmax]
  split <;> omega

theorem handlerContext_eq_iff {req : Request ν} (hpos : 0 < req.timeoutMS) (now : Int) :
    handlerContext now ⟨none⟩ req = ⟨some (now + budget req.timeoutMS)⟩ ↔
      req.timeoutMS ≤ 900000 ∨ maxRequestedTimeout ≤ req.timeoutMS * 1000000 := by
  have hd := toInt_requestedTimeout hpos
  have hmax : maxRequestedTimeout.toInt = 900000000000 := by decide
  have hms : (900000 : Int64).toInt = 900000 := by decide
  have hzero : (0 : Int64).toInt = 0 := rfl
  rw [Int64.lt_iff_toInt_lt, hzero] at hpos
  have hprod := toInt_product hpos
  simp only [handlerContext, Context.withTimeout, budget, gt_iff_lt, Int64.lt_iff_toInt_lt,
    Int64.le_iff_toInt_le, hd, hmax, hms, hzero]
  split
  · simp only [Context.mk.injEq, Option.some.injEq]
    omega
  · simp only [Context.mk.injEq, reduceCtorEq, false_iff]
    omega

/-- A handler that returns its context shows the budget. -/
theorem BudgetKept.context {req : Request ν} (h : BudgetKept req) (hversion : req.jsonrpc = "2.0") :
    handlerContext 0 ⟨none⟩ req = ⟨some (0 + budget req.timeoutMS)⟩ := by
  have hecho := h Context (fun _ => some fun ctx _ => .ok ctx) _ 0 rfl
  rw [dispatch, if_neg (not_not.mpr hversion)] at hecho
  exact Option.some.inj (congrArg Response.result hecho)

/-- **Budgets.** A request for a known method gives its handler exactly its budget if it asks for
no more than the limit, or if the product is not below the limit in 64 bits either. -/
theorem budget_kept_iff {req : Request ν} (hversion : req.jsonrpc = "2.0")
    (hpos : 0 < req.timeoutMS) :
    BudgetKept req ↔ req.timeoutMS ≤ 900000 ∨ maxRequestedTimeout ≤ req.timeoutMS * 1000000 := by
  rw [← handlerContext_eq_iff hpos 0]
  constructor
  · exact fun hkept => hkept.context hversion
  · intro hcontext ρ handlers handler now hhandler
    have hnow := (handlerContext_eq_iff hpos now).mpr ((handlerContext_eq_iff hpos 0).mp hcontext)
    rw [dispatch, if_neg (not_not.mpr hversion), hhandler]
    dsimp only
    rw [hnow]

/-- A command with a budget. -/
def execRun (ms : Int64) : Request Nat :=
  ⟨"2.0", "exec.run", [], 1, ms⟩

theorem two_minutes_kept : BudgetKept (execRun 120000) :=
  (budget_kept_iff rfl (by decide)).mpr (.inl (by decide))

/-- 292 years leave the handler without a deadline, and 584 years give it half a millisecond. -/
theorem wrapped_budgets :
    let deadline ms := (dispatch (fun _ => some fun ctx _ => .ok ctx) 0 ⟨none⟩ (execRun ms)).result
    (budget 9223372036855 = 900000000000 ∧ deadline 9223372036855 = some ⟨none⟩ ∧
      budget 18446744073710 = 900000000000 ∧ deadline 18446744073710 = some ⟨some 448384⟩) ∧
    ¬ BudgetKept (execRun 9223372036855) ∧ ¬ BudgetKept (execRun 18446744073710) := by
  refine ⟨by decide +kernel, fun h => ?_, fun h => ?_⟩
  · exact absurd (h.context rfl) (by decide +kernel)
  · exact absurd (h.context rfl) (by decide +kernel)

end Lankeeper.Agent.Dispatch
