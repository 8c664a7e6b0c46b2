import StackMachine.Proofs.GuardedStack.Alteration
import StackMachine.Proofs.Machine.Room

namespace StackMachine

namespace Store

/-- The stack that goes by a name. -/
def stack (s : Store) : StackRole → GuardedStack
  | .data => s.data
  | .call => s.calls

/-- What an alteration of one of the stacks makes of a store. -/
def alter (s : Store) (role : StackRole) (a : GuardedStack.Alteration) : Store :=
  match role with
  | .data => { s with data := a.apply s.data }
  | .call => { s with calls := a.apply s.calls }

theorem stack_alter (s : Store) (role : StackRole) (a : GuardedStack.Alteration) :
    (s.alter role a).stack role = a.apply (s.stack role) := by
  cases role <;> rfl

/-- Both stacks of a store that holds a plain one are whole. -/
theorem Holds.stack {s : Store} {p : PlainStore} (h : s.Holds p) (role : StackRole) :
    ∃ words, (s.stack role).Holds words := by
  cases role with
  | data => exact ⟨_, h.data⟩
  | call => exact ⟨_, h.calls⟩

/-- Only the altered stack is found to be damaged. -/
theorem Holds.damage?_alter {s : Store} {p : PlainStore} (h : s.Holds p) {role : StackRole}
    {a : GuardedStack.Alteration} (hn : ((s.alter role a).stack role).status ≠ []) :
    Machine.damage? (s.alter role a) =
      some (role, (s.alter role a).stack role, ((s.alter role a).stack role).status) := by
  cases role with
  | data =>
    have hdata : (s.alter .data a).data.status ≠ [] := hn
    simp [Machine.damage?, Store.stack, hdata]
  | call =>
    have hdata : (s.alter .call a).data.status = [] := h.data.status
    have hcalls : (s.alter .call a).calls.status ≠ [] := hn
    simp [Machine.damage?, Store.stack, hdata, hcalls]

end Store

namespace Machine

def alter (m : Machine) (role : StackRole) (a : GuardedStack.Alteration) : Machine :=
  { m with store := m.store.alter role a }

section Damaged

variable {m : Machine} {role : StackRole} {stack : GuardedStack}
  {findings : List GuardedStack.Finding}

/-- A machine with a damaged stack does nothing but report it. -/
theorem step_of_damage (h : damage? m.store = some (role, stack, findings)) :
    m.step = ⟨m, .error (.stackDamaged role findings), some (.damaged role stack)⟩ := by
  simp only [step, h]

theorem after_of_damage (h : damage? m.store = some (role, stack, findings)) (count : Nat) :
    m.after count = m := by
  induction count with
  | zero => rfl
  | succ count ih => rw [after, ih, step_of_damage h]

end Damaged

/-- However a machine got where it is, an alteration that changes one of its stacks is found. The
stack has findings and refuses all calls, and each further step of the machine reports the stack by
its name and leaves the machine as it is. -/
theorem altered_machine_stays {program : Program} {sizes : Sizes} {console : Console}
    {m₀ : Machine} {count : Nat} (hs : start program sizes console = .ok m₀)
    (hf : m₀.FitsFor count) {role : StackRole} {a : GuardedStack.Alteration} (hc : a.Countable)
    (hn : a.apply ((m₀.after count).store.stack role) ≠ (m₀.after count).store.stack role) :
    let m := (m₀.after count).alter role a
    let stack := m.store.stack role
    stack.status ≠ [] ∧
      (∀ call : GuardedStack.Call, call.on stack = (.error (.damaged stack.status), stack)) ∧
      ∀ k, m.after k = m ∧ (m.after k).step =
        ⟨m, .error (.stackDamaged role stack.status), some (.damaged role stack)⟩ := by
  intro m stack
  obtain ⟨-, -, -, -, p₀, hold₀, -, -⟩ := start_holds hs
  obtain ⟨-, -, p, hold⟩ := after_holds hold₀ hf
  obtain ⟨words, hwords⟩ := hold.stack role
  have hstack : stack = a.apply ((m₀.after count).store.stack role) := Store.stack_alter _ _ _
  have hstatus : stack.status ≠ [] := by
    intro hnone
    rw [hstack] at hnone
    exact hn (GuardedStack.Alteration.apply_eq_of_status hwords hc hnone)
  have hdamage : damage? m.store = some (role, stack, stack.status) := hold.damage?_alter hstatus
  refine ⟨hstatus, fun call => call.on_of_status hstatus, ?_⟩
  intro k
  have hafter := after_of_damage hdamage k
  rw [hafter]
  exact ⟨rfl, step_of_damage hdamage⟩

/-- One bit of poison in a slot that was never used is enough. -/
theorem altered_machine_stays_poison :
    ∃ m₀, start (.ofBody #[8, 7, 0, 0, 0, 0]) ⟨1, 1, 1, 1, 2, 0, 1⟩
        ⟨⟨[], false⟩, ⟨#[], none, false⟩⟩ = .ok m₀ ∧ m₀.FitsFor 1 ∧
      let a : GuardedStack.Alteration := .bufferByte 2 7 0xDF
      a.Countable ∧ a.apply (m₀.after 1).store.data ≠ (m₀.after 1).store.data ∧
      let m := (m₀.after 1).alter .data a
      m.store.data.status = [.hash] ∧
      m.step = ⟨m, .error (.stackDamaged .data m.store.data.status),
        some (.damaged .data m.store.data)⟩ := by
  have hrun {m₀ : Machine} {a : GuardedStack.Alteration}
      (hs : start (.ofBody #[8, 7, 0, 0, 0, 0]) ⟨1, 1, 1, 1, 2, 0, 1⟩
        ⟨⟨[], false⟩, ⟨#[], none, false⟩⟩ = .ok m₀) (hf : m₀.FitsFor 1) (hc : a.Countable)
      (hn : a.apply (m₀.after 1).store.data ≠ (m₀.after 1).store.data) :
      ((m₀.after 1).alter .data a).step =
        ⟨(m₀.after 1).alter .data a,
          .error (.stackDamaged .data ((m₀.after 1).alter .data a).store.data.status),
          some (.damaged .data ((m₀.after 1).alter .data a).store.data)⟩ :=
    ((@altered_machine_stays _ _ _ _ _ hs hf .data a hc hn).2.2 0).2
  have hf {m₀ : Machine} (hs : start (.ofBody #[8, 7, 0, 0, 0, 0]) ⟨1, 1, 1, 1, 2, 0, 1⟩
      ⟨⟨[], false⟩, ⟨#[], none, false⟩⟩ = .ok m₀) : m₀.FitsFor 1 :=
    fitsFor_of_start hs (by decide)
  exact ⟨_, rfl, hf rfl, trivial, by decide +kernel, by decide +kernel,
    hrun rfl (hf rfl) trivial (by decide +kernel)⟩

end Machine

end StackMachine
