import PaxosStore.PaxosKv.PInsWrapper

set_option autoImplicit false

namespace PaxosStore.PaxosKv

structure Server where
  pins : PaxosInstance := {}
  alive : Option PInsAliveState := none
deriving DecidableEq

-- The three servers of one key and index, every message ever sent, and who ever
-- marked which value chosen.
structure Servers where
  server : Fin 3 → Server
  sent : List Message
  marks : List (Fin 3 × Entry)
deriving DecidableEq

def selfid (i : Fin 3) : Nat := i + 1

inductive Event where
  | request (i : Fin 3) (msg : Message) (learnerOnly written : Bool)
  | receive (i : Fin 3) (msg : Message) (learnerOnly written : Bool)
  | create (i : Fin 3) (propCnt : Nat)
  | lose (i : Fin 3)
deriving DecidableEq

namespace Servers

def start : Servers := ⟨fun _ => {}, [], []⟩

def setServer (s : Servers) (i : Fin 3) (server : Server) : Servers :=
  { s with server := Function.update s.server i server }

-- A failed assertion takes the process down. A failed write keeps the stored
-- instance and the reply back, but the in-memory state has already changed.
def handle (s : Servers) (i : Fin 3) (msg : Message) (learnerOnly written : Bool) : Servers :=
  match wrapperStep learnerOnly i msg (s.server i).alive (s.server i).pins with
  | none => s.setServer i { s.server i with alive := none }
  | some (write, rsp, alive, pins) =>
      let marked := !(s.server i).pins.chosen && pins.chosen
      let marks := if marked then (pins.acceptedValue.map fun value => (i, value)).toList ++ s.marks else s.marks
      if (write || marked) && !written then
        { s.setServer i ⟨(s.server i).pins, alive⟩ with marks := marks }
      else { s.setServer i ⟨pins, alive⟩ with sent := rsp.toList ++ s.sent, marks := marks }

-- Messages a server gives itself, and questions for the chosen value.
def isRequest (type : MessageType) : Bool :=
  type = .beginProp ∨ type = .beginFastProp ∨ type = .tryProp ∨ type = .tryRedoProp ∨ type = .getChosen ∨ type = .noop

def addressed (i : Fin 3) (msg : Message) : Bool :=
  msg.toId = some i ∨ msg.toId = none ∧ msg.fromId ≠ i

-- Only server `fast` ever begins with the fast path.
def act (fast : Fin 3) (s : Servers) : Event → Option Servers
  | .request i msg learnerOnly written =>
      if isRequest msg.type ∧ (msg.type = .beginFastProp → i = fast) then some (s.handle i msg learnerOnly written) else none
  | .receive i msg learnerOnly written =>
      if msg ∈ s.sent ∧ addressed i msg then some (s.handle i msg learnerOnly written) else none
  | .create i propCnt => some (s.setServer i { s.server i with alive := some (.create (selfid i) propCnt) })
  | .lose i => some (s.setServer i { s.server i with alive := none })

end Servers

end PaxosStore.PaxosKv
