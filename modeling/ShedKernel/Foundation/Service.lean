import Mathlib.Logic.Basic

/-! A state machine that answers requests. Two of them give the same answers when a
relation between their states survives every request. -/

set_option autoImplicit false

namespace ShedKernel.Foundation

section Service

variable {State Other Request Answer : Type} {serve : State → Request → State × Answer}
  {serveOther : Other → Request → Other × Answer}

/-- The answers to requests served one after the other. -/
def answers (serve : State → Request → State × Answer) : State → List Request → List Answer
  | _, [] => []
  | state, request :: rest => (serve state request).2 :: answers serve (serve state request).1 rest

/-- One request served alike: the answers are the same, and the states stay related. -/
def ServedAlike (related : State → Other → Prop) (served : State × Answer) (other : Other × Answer) : Prop :=
  related served.1 other.1 ∧ served.2 = other.2

theorem answers_eq {related : State → Other → Prop} {allowed : Request → Prop}
    (step : ∀ state other request, related state other → allowed request →
      ServedAlike related (serve state request) (serveOther other request))
    {state : State} {other : Other} (start : related state other) (requests : List Request)
    (all : ∀ request ∈ requests, allowed request) :
    answers serve state requests = answers serveOther other requests := by
  induction requests generalizing state other with
  | nil => rfl
  | cons request rest ih =>
      obtain ⟨next, same⟩ := step state other request start (all request List.mem_cons_self)
      rw [answers, answers, same, ih next fun later member => all later (List.mem_cons_of_mem _ member)]

end Service

end ShedKernel.Foundation
