import StackMachine.Proofs.Disassembly.Walk
import StackMachine.Proofs.GuardedStack.Uppermost
import StackMachine.Proofs.Machine.Flow
import StackMachine.Proofs.Machine.Steps

namespace StackMachine

namespace Disassembly

/-- What a walk from an offset finds, and the fault that it stops with if it does not get to the
end. -/
inductive Finds (bytes : Array UInt8) : Nat → List Decoded → Option Fault → Prop where
  | none {offset : Nat} (he : bytes.size ≤ offset) : Finds bytes offset [] none
  | fault {offset : Nat} {fault : Fault} (hr : Decoded.read bytes offset = .error fault) :
      Finds bytes offset [] (some fault)
  | next {offset : Nat} {d : Decoded} {rest : List Decoded} {fault? : Option Fault}
      (hr : Decoded.read bytes offset = .ok d) (hrest : Finds bytes d.next rest fault?) :
      Finds bytes offset (d :: rest) fault?

/-- Where a walk that starts at an offset stands behind the instructions it found. -/
def place (offset : Nat) (found : List Decoded) : Nat :=
  found.foldl (fun _ d => d.next) offset

/-- A walk goes on in the same way from wherever it stands. -/
theorem Finds.rest {bytes : Array UInt8} {offset : Nat} {found rest : List Decoded}
    {fault? : Option Fault} (h : Finds bytes offset (found ++ rest) fault?) :
    Finds bytes (place offset found) rest fault? := by
  induction found generalizing offset with
  | nil => exact h
  | cons d found ih =>
    cases h with
    | next hr hrest => exact ih hrest

end Disassembly

namespace Machine

/-- An instruction is fetched where a machine stands, and the next step is to carry it out. Its
handler is given an argument of the kind that its text shows. -/
structure CarriesOut (m : Machine) (d : Decoded) : Prop where
  fetch_eq : m.fetch = .ok d
  argument_eq : (handler m.callDepth d.instruction).argument = d.instruction.argument
  offset_eq : d.offset = m.ip
  fails : ∀ fault store console,
    execute m.callDepth d m.store m.console = ⟨.error fault, store, console⟩ →
      m.step = ⟨{ m with store, console }, .error fault, none⟩
  goes : ∀ flow store console,
    execute m.callDepth d m.store m.console = ⟨.ok flow, store, console⟩ →
      let target := advance { m with store, console } (target? d flow)
      m.step = ⟨target.2, target.1, some (.executed d.instruction d.offset
        store.data.size.toNat store.calls.size.toNat)⟩

theorem carriesOut_of_fetch {m : Machine} {d : Decoded} (hd : m.store.data.status = [])
    (hc : m.store.calls.status = []) (h : m.fetch = .ok d) : m.CarriesOut d := by
  have hwhole := damage?_of_status hd hc
  refine ⟨h, argument_handler _ _, Decoded.offset_of_read (read_of_fetch h).1, ?_, ?_⟩
  · intro fault store console he
    simp only [step, hwhole, h, he]
  · intro flow store console he
    simp only [step, hwhole, h, he]

section Next

variable {s : Store} {c : Console} {d : Decoded} {flow : Flow}

end Next

end Machine

end StackMachine
