import TypedContracts.Proofs.Wrapper.Plan

/-!
The functions of a wrapper. Each is made for a transition, a field or a deployment parameter, and it
hands its parameters on to the contract.
-/
namespace TypedContracts.Wrapper

/-- What a function asks of the contract that it wraps. -/
inductive Forward where
  | call (transition : String) (values : List String)
  | callWith (transition : String) (values : List String) (overrides : String)
  | read (reader : Reader) (slot : String)
deriving DecidableEq, Repr

structure Function where
  name : String
  parameters : List (String × String)
  answer : String
  forward : Forward
deriving DecidableEq, Repr

def Forward.text : Forward → String
  | .call transition values =>
    "invoke(self.ctx, \"" ++ transition ++ "\", vec![" ++ commaSeparated values ++ "])"
  | .callWith transition values overrides =>
    "invoke_with(self.ctx, \"" ++ transition ++ "\", vec![" ++ commaSeparated values ++ "], " ++
      overrides ++ ")"
  | .read reader slot => reader.name ++ "(self.ctx, \"" ++ slot ++ "\")"

def Function.head (f : Function) : String :=
  "    pub fn " ++ f.name ++ "(&self" ++
    String.join (f.parameters.map fun p => ", " ++ p.1 ++ ": " ++ p.2) ++
    ") -> Result<" ++ f.answer ++ "> \x7b"

def Function.body (f : Function) : String := "        self.contract." ++ f.forward.text

def parametersOf (params : List Field) : List (String × String) :=
  params.map fun p => (identifier p.name, "impl Into<Value>")

def valuesOf (params : List Field) : List String :=
  params.map fun p => identifier p.name ++ ".into()"

def methodOf (name : String) (t : Component) : Function :=
  ⟨name, parametersOf t.params, "Transaction", .call t.name (valuesOf t.params)⟩

def variantOf (name : String) (t : Component) : Function :=
  ⟨name, parametersOf t.params ++ [("tx", "&TxOverrides")], "Transaction",
    .callWith t.name (valuesOf t.params) "tx"⟩

def accessorOf (name : String) (reader : Reader) (slot : Field) : Function :=
  ⟨name, [], "DecodedValue", .read reader slot.name⟩

def Item.functions : Item → List Function
  | .call name withOverrides t => [methodOf name t, variantOf withOverrides t]
  | .accessor name reader slot => [accessorOf name reader slot]
  | .callClash _ => []
  | .accessorClash _ => []

def functions (c : Contract) : List Function := (plan c).items.flatMap Item.functions

theorem functions_names (c : Contract) :
    fixedNames ++ (functions c).map (·.name) = (plan c).names := by
  have each : ∀ item : Item, item.functions.map (·.name) = item.names := by
    rintro (_ | _ | _ | _) <;> rfl
  simp [functions, Plan.names, List.map_flatMap, each]

/-- A function for a transition hands on the name of the transition and one value for each of its
parameters, one for a field or a deployment parameter the name of that; none is made for a
procedure. -/
inductive Forwards (c : Contract) (f : Function) : Prop where
  | method (t : Component) (declared : t ∈ c.components) (outside : t.isProcedure = false)
      (name : f.name = identifier t.name) (parameters : f.parameters = parametersOf t.params)
      (forward : f.forward = .call t.name (valuesOf t.params))
  | variant (t : Component) (declared : t ∈ c.components) (outside : t.isProcedure = false)
      (name : f.name = overridesName (identifier t.name))
      (parameters : f.parameters = parametersOf t.params ++ [("tx", "&TxOverrides")])
      (forward : f.forward = .callWith t.name (valuesOf t.params) "tx")
  | accessor (reader : Reader) (slot : Field) (declared : slot ∈ reader.slots c)
      (name : f.name = identifier slot.name) (parameters : f.parameters = [])
      (forward : f.forward = .read reader slot.name)

theorem functions_forward (c : Contract) : ∀ f ∈ functions c, Forwards c f := by
  intro f member
  obtain ⟨item, planned, member⟩ := List.mem_flatMap.mp member
  cases plan_from c item planned with
  | @call t declared outside =>
    rcases List.mem_pair.mp member with rfl | rfl
    · exact .method t declared outside rfl rfl rfl
    · exact .variant t declared outside rfl rfl rfl
  | @accessor reader slot declared =>
    obtain rfl := List.mem_singleton.mp member
    exact .accessor reader slot declared rfl rfl rfl
  | callClash _ _ => cases member
  | accessorClash _ => cases member

theorem functions_settled {c : Contract} (named : Named c) :
    ∀ f ∈ functions c, Settled f.name := by
  intro f member
  have kept := plan_kept named
  refine kept.settled f.name (kept.within f.name ?_)
  rw [← functions_names]
  exact List.mem_append_right _ (List.mem_map_of_mem member)

end TypedContracts.Wrapper
