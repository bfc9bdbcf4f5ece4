import TypedContracts.Chain.Client

/-!
A chain that answers what it was told to and remembers what it was sent. While a failure is set,
every operation fails with its text and nothing is remembered.
-/
namespace TypedContracts

structure ScriptedChain where
  state : List (String × Json)
  init : List NamedValue
  codes : List (String × String)
  receipt : Option Receipt
  failure : Option String
  deployed : Nat
  called : Nat
  sent : List Request

namespace ScriptedChain

def empty : ScriptedChain := ⟨[], [], [], none, none, 0, 0, []⟩

def hexadecimal (n : Nat) : String :=
  let digits := Digits.hexadecimal n
  String.ofList (['0', 'x'] ++ List.replicate (40 - digits.length) '0' ++ digits)

def guarded {α : Type} (c : ScriptedChain) (value : α) : Result α :=
  match c.failure with
  | some text => .error (.remote text)
  | none => .ok value

def deploy (c : ScriptedChain) (r : DeployRequest) :
    ScriptedChain × Result (Transaction × String) :=
  match c.failure with
  | some text => (c, .error (.remote text))
  | none =>
    let n := c.deployed + 1
    ({ c with deployed := n, sent := c.sent ++ [.deploy r] },
      .ok (⟨"deploy-" ++ toString n, c.receipt⟩, hexadecimal n))

def call (c : ScriptedChain) (r : CallRequest) : ScriptedChain × Result Transaction :=
  match c.failure with
  | some text => (c, .error (.remote text))
  | none =>
    let n := c.called + 1
    ({ c with called := n, sent := c.sent ++ [.call r] }, .ok ⟨"call-" ++ toString n, c.receipt⟩)

def client : Client ScriptedChain where
  deploy := deploy
  call := call
  state c _ := c.guarded c.state
  init c _ := c.guarded c.init
  code c address := c.guarded (c.codes.lookup address)

end ScriptedChain
end TypedContracts
