import StackMachine.Proofs.Machine.PlainStore

namespace StackMachine

open PlainStore

/-- An action on a store ends like the effect on the plain store that it holds. -/
def Agrees (s : Store) (result : EStateM.Result Fault Store Flow) : Effect → Prop
  | .ok (flow, q) => ∃ t, result = .ok flow t ∧ t.Holds q
  | .error fault => result = .error fault s

/-- The same for an action after which control goes to the next instruction. -/
def AgreesNext (s : Store) (action : Action Unit) (effect : Effect) : Prop :=
  Agrees s ((do action; return .next : Action Flow) s) effect

@[simp] theorem Store.modify_eq (change : Store → Store) (s : Store) :
    (modify change : Action Unit) s = .ok () (change s) := rfl

theorem AgreesNext.ok {s t : Store} {q : PlainStore} {action : Action Unit}
    (ha : action s = .ok () t) (ht : t.Holds q) : AgreesNext s action (.ok (.next, q)) :=
  ⟨t, by simp [bind, EStateM.bind, ha, pure, EStateM.pure], ht⟩

theorem AgreesNext.error {s : Store} {action : Action Unit} {fault : Fault}
    (ha : action s = .error fault s) : AgreesNext s action (.error fault) := by
  simp [AgreesNext, Agrees, bind, EStateM.bind, ha]

section Sequence

variable {α : Type} {s : Store}

/-- What only looks at a store may come before the rest of an action. -/
theorem AgreesNext.after {first : Action α} {rest : α → Action Unit} {effect : Effect} {a : α}
    (hf : first s = .ok a s) (hr : AgreesNext s (rest a) effect) :
    AgreesNext s (first >>= rest) effect := by
  simpa [AgreesNext, bind, EStateM.bind, hf] using hr

/-- A question comes before the rest of an action, and its fault is the fault of the action. -/
theorem AgreesNext.ask {question : Store → Except Fault α} {answer : Except Fault α}
    {rest : α → Action Unit} {effect : α → Effect} (hq : question s = answer)
    (hr : ∀ a, answer = .ok a → AgreesNext s (rest a) (effect a)) :
    AgreesNext s (Store.ask question >>= rest) (answer >>= effect) := by
  cases answer with
  | error fault =>
    apply AgreesNext.error
    simp [Store.ask, bind, EStateM.bind, hq]
  | ok a => exact .after (by simp [Store.ask, hq]) (hr a rfl)

/-- The same where the action says where control goes. -/
theorem Agrees.ask {question : Store → Except Fault α} {answer : Except Fault α}
    {rest : α → Action Flow} {effect : α → Effect} (hq : question s = answer)
    (hr : ∀ a, answer = .ok a → Agrees s (rest a s) (effect a)) :
    Agrees s ((Store.ask question >>= rest) s) (answer >>= effect) := by
  cases answer with
  | error fault => simp [Agrees, Store.ask, bind, EStateM.bind, Except.bind, hq]
  | ok a =>
    have hfirst : Store.ask question s = .ok a s := by simp [Store.ask, hq]
    simpa [bind, EStateM.bind, Except.bind, hfirst] using hr a rfl

end Sequence

namespace Store.Holds

variable {s : Store} {p : PlainStore} {d : Decoded}

theorem peek (h : s.Holds p) {depth : Nat} {value : Int32} (hv : p.data[depth]? = some value) :
    Store.peek d depth s = .ok value s := by
  have hw : (p.data.map Int32.toInt64)[depth]? = some value.toInt64 := by simp [hv]
  simp [Store.peek, h.data.peek hw]

theorem pop (h : s.Holds p) {value : Int32} {rest : List Int32} (hp : p.data = value :: rest) :
    ∃ t, Store.pop d s = .ok value t ∧ t.Holds { p with data := rest } := by
  have hdata := h.data
  rw [hp] at hdata
  obtain ⟨data, hd, hold⟩ := hdata.pop
  exact ⟨{ s with data }, by simp [Store.pop, hd], hold, h.calls, h.cells, h.screen⟩

theorem drop (h : s.Holds p) {value : Int32} {rest : List Int32} (hp : p.data = value :: rest) :
    ∃ t, Store.drop d s = .ok () t ∧ t.Holds { p with data := rest } := by
  obtain ⟨t, ht, hold⟩ := h.pop (d := d) hp
  exact ⟨t, by simp [Store.drop, bind, EStateM.bind, ht, pure, EStateM.pure], hold⟩

theorem push (h : s.Holds p) (hroom : 2 * p.data.length + 3 < 2 ^ 62) (value : Int32) :
    ∃ t, Store.push d value s = .ok () t ∧ t.Holds { p with data := value :: p.data } := by
  obtain ⟨data, hd, hold⟩ := h.data.push value.toInt64 (by simpa using hroom)
  exact ⟨{ s with data }, by simp [Store.push, hd], hold, h.calls, h.cells, h.screen⟩

theorem pushAnswer (h : s.Holds p) (hroom : 2 * p.data.length + 3 < 2 ^ 62)
    {question : Store → Except Fault Int32} {answer : Except Fault Int32}
    (hq : question s = answer) :
    AgreesNext s (do let value ← ask question; Store.push d value) (p.push answer) := by
  apply AgreesNext.ask hq
  intro value _
  obtain ⟨t, ht, hold⟩ := h.push (d := d) hroom value
  exact .ok ht hold

theorem dropTop (h : s.Holds p) (hin : 1 ≤ p.data.length) :
    AgreesNext s (Store.drop d) (p.pop d) := by
  obtain ⟨value, rest, hp⟩ := List.exists_cons_of_length_pos hin
  obtain ⟨t, ht, hold⟩ := h.drop (d := d) hp
  simp only [PlainStore.pop, hp]
  exact .ok ht hold

theorem dup (h : s.Holds p) (hin : 1 ≤ p.data.length) (hroom : 2 * p.data.length + 3 < 2 ^ 62) :
    AgreesNext s (Store.dup d) (p.dup d) := by
  obtain ⟨value, rest, hp⟩ := List.exists_cons_of_length_pos hin
  obtain ⟨t, ht, hold⟩ := h.push (d := d) hroom value
  simp only [PlainStore.dup, hp]
  have hpeek : Store.peek d 0 s = .ok value s := h.peek (by simp [hp])
  exact .after hpeek (.ok ht (by simpa [hp] using hold))

/-- Putting a value into a cell and dropping the top value after that. -/
theorem assignDrop (h : s.Holds p) {value : Int32} {rest : List Int32}
    (hp : p.data = value :: rest) (operand : Operand) (new : Int32) :
    AgreesNext s (do Store.assign operand new; Store.drop d)
      (do
        let cells ← assigned p.cells operand new
        .ok (.next, { p with data := rest, cells })) := by
  cases hl : s.cells.locate operand with
  | error fault =>
    have ha : Store.assign operand new s = .error fault s := by
      simp [Store.assign, Store.ask, bind, EStateM.bind, hl]
    simp only [assigned, ← h.cells, hl]
    exact .error (by simp [bind, EStateM.bind, ha])
  | ok cell =>
    have ha : Store.assign operand new s =
        .ok () { s with cells := s.cells.set cell new } := by
      simp [Store.assign, Store.ask, bind, EStateM.bind, hl]
    have hset : Store.Holds { s with cells := s.cells.set cell new }
        { p with cells := s.cells.set cell new } := ⟨h.data, h.calls, rfl, h.screen⟩
    obtain ⟨t, ht, hold⟩ := hset.drop (d := d) hp
    simp only [assigned, ← h.cells, hl]
    exact .ok (by simp [bind, EStateM.bind, ha, ht]) hold

theorem moveTop (h : s.Holds p) (hin : 1 ≤ p.data.length) :
    AgreesNext s (Store.moveTop d d.operand) (p.move d) := by
  obtain ⟨value, rest, hp⟩ := List.exists_cons_of_length_pos hin
  have hpeek : Store.peek d 0 s = .ok value s := h.peek (by simp [hp])
  obtain ⟨t, ht, hold⟩ := h.drop (d := d) hp
  unfold Store.moveTop
  apply AgreesNext.after hpeek
  simp only [PlainStore.move, hp]
  cases ho : d.operand with
  | immediate _ => exact .ok ht hold
  | memory index => exact h.assignDrop hp (.memory index) value
  | register index => exact h.assignDrop hp (.register index) value
  | indexed base offset => exact h.assignDrop hp (.indexed base offset) value

theorem combine (h : s.Holds p) (hin : 2 ≤ p.data.length)
    (hroom : 2 * p.data.length + 3 < 2 ^ 62) (operation : Int32 → Int32 → Int32) :
    AgreesNext s (Store.combine d operation) (p.combine d operation) := by
  obtain ⟨b, a, rest, hp⟩ := exists_cons_cons hin
  rw [hp, List.length_cons, List.length_cons] at hroom
  obtain ⟨t, ht, hold⟩ := h.pop (d := d) hp
  obtain ⟨u, hu, hold⟩ := hold.pop (d := d) rfl
  obtain ⟨v, hv, hold⟩ := hold.push (d := d) (by simp only; omega) (operation a b)
  simp only [PlainStore.combine, hp]
  exact .ok (by simp [Store.combine, bind, EStateM.bind, ht, hu, hv]) hold

theorem divide (h : s.Holds p) (hin : 2 ≤ p.data.length)
    (hroom : 2 * p.data.length + 3 < 2 ^ 62) :
    AgreesNext s (Store.divide d) (p.divide d) := by
  obtain ⟨b, a, rest, hp⟩ := exists_cons_cons hin
  have hpeek : Store.peek d 0 s = .ok b s := h.peek (by simp [hp])
  have hdivide : p.divide d =
      if b = 0 then .error (.divisionByZero d.offset) else p.combine d (· / ·) := by
    simp only [PlainStore.divide, hp]
  unfold Store.divide
  apply AgreesNext.after hpeek
  rw [hdivide]
  split
  · exact .error rfl
  · exact h.combine hin hroom (· / ·)

theorem jump (h : s.Holds p) : Agrees s (Store.jump d d.payload s) (p.jump d) := by
  apply Agrees.ask rfl
  intro distance _
  exact ⟨s, rfl, h⟩

theorem branch (h : s.Holds p) (hin : 2 ≤ p.data.length) (test : Int32 → Int32 → Bool) :
    Agrees s (Store.branch d d.payload test s) (p.branch d test) := by
  obtain ⟨a, b, rest, hp⟩ := exists_cons_cons hin
  obtain ⟨t, ht, hold⟩ := h.pop (d := d) hp
  obtain ⟨u, hu, hold⟩ := hold.pop (d := d) rfl
  apply Agrees.ask rfl
  intro distance _
  simp only [hp]
  exact ⟨u, by simp [bind, EStateM.bind, ht, hu, pure, EStateM.pure], hold⟩

theorem remember (h : s.Holds p) (hroom : 2 * p.calls.length + 3 < 2 ^ 62) :
    ∃ t, Store.remember d s = .ok () t ∧
      t.Holds { p with calls := Int64.ofNat d.next :: p.calls } := by
  obtain ⟨calls, hc, hold⟩ := h.calls.push (Int64.ofNat d.next) hroom
  exact ⟨{ s with calls }, by simp [Store.remember, hc], h.data, hold, h.cells, h.screen⟩

theorem call (h : s.Holds p) (callDepth : Nat) (hroom : 2 * p.calls.length + 3 < 2 ^ 62) :
    Agrees s (Store.call d d.payload callDepth s) (p.call d callDepth) := by
  obtain ⟨t, ht, hold⟩ := h.remember (d := d) hroom
  apply Agrees.ask rfl
  intro distance _
  have hdepth : Store.ask (fun s => .ok s.calls.size.toNat) s = .ok p.calls.length s := by
    simp [Store.ask, h.calls.size_eq]
  simp only [bind, EStateM.bind, hdepth]
  by_cases hdeep : callDepth ≤ p.calls.length
  · simp only [hdeep, ↓reduceIte]
    exact rfl
  · simp only [hdeep, ↓reduceIte]
    exact ⟨t, by simp [EStateM.bind, ht, pure, EStateM.pure], hold⟩

theorem goBack (h : s.Holds p) : Agrees s (Store.goBack d s) (p.goBack d) := by
  cases hp : p.calls with
  | nil =>
    have hcalls := h.calls
    rw [hp] at hcalls
    simp [PlainStore.goBack, hp, Agrees, Store.goBack, hcalls.pop_nil]
  | cons target rest =>
    have hcalls := h.calls
    rw [hp] at hcalls
    obtain ⟨calls, hc, hold⟩ := hcalls.pop
    simp only [PlainStore.goBack, hp]
    exact ⟨{ s with calls }, by simp [Store.goBack, hc], h.data, hold, h.cells, h.screen⟩

theorem copyToRegister (h : s.Holds p) (hin : 1 ≤ p.data.length) :
    AgreesNext s (Store.copyToRegister d d.payload) (p.copyToRegister d) := by
  obtain ⟨value, rest, hp⟩ := List.exists_cons_of_length_pos hin
  have hcopy : p.copyToRegister d = (do
      let registers ← Registers.set p.cells.registers d.payload value
      .ok (.next, { p with cells := { p.cells with registers } })) := by
    simp only [PlainStore.copyToRegister, hp]
  rw [hcopy]
  have hvalue : Store.peek d 0 s = .ok value s := h.peek (by simp [hp])
  apply AgreesNext.after hvalue
  apply AgreesNext.ask (by rw [h.cells])
  intro registers _
  exact .ok rfl ⟨h.data, h.calls, by simp only [h.cells], h.screen⟩

theorem setPixel (h : s.Holds p) (hin : 2 ≤ p.data.length) :
    AgreesNext s (Store.setPixel d) (p.setPixel d) := by
  obtain ⟨key, value, rest, hp⟩ := exists_cons_cons hin
  simp only [PlainStore.setPixel, hp]
  have hkey : Store.peek d 0 s = .ok key s := h.peek (by simp [hp])
  have hvalue : Store.peek d 1 s = .ok value s := h.peek (by simp [hp])
  apply AgreesNext.after hkey
  apply AgreesNext.after hvalue
  apply AgreesNext.ask (by rw [h.screen])
  intro screen _
  have hset : Store.Holds { s with screen } { p with screen } :=
    ⟨h.data, h.calls, h.cells, rfl⟩
  obtain ⟨t, ht, hold⟩ := hset.drop (d := d) hp
  exact .ok (by simp [bind, EStateM.bind, ht]) hold

/-- A value that is found with the key on top takes its place. -/
theorem lookUp (h : s.Holds p) (hin : 1 ≤ p.data.length) (hroom : 2 * p.data.length + 3 < 2 ^ 62)
    {question : Int32 → Store → Except Fault Int32} {find : Int32 → Except Fault Int32}
    (hq : ∀ key, question key s = find key) :
    AgreesNext s
      (do
        let key ← Store.peek d 0
        let value ← ask (question key)
        Store.drop d
        Store.push d value)
      (p.lookUp d find) := by
  obtain ⟨key, rest, hp⟩ := List.exists_cons_of_length_pos hin
  rw [hp, List.length_cons] at hroom
  obtain ⟨t, ht, hold⟩ := h.drop (d := d) hp
  simp only [PlainStore.lookUp, hp]
  have hkey : Store.peek d 0 s = .ok key s := h.peek (by simp [hp])
  apply AgreesNext.after hkey
  apply AgreesNext.ask (hq key)
  intro value _
  obtain ⟨u, hu, hold⟩ := hold.push (d := d) (by simp only; omega) value
  exact .ok (by simp [bind, EStateM.bind, ht, hu]) hold

theorem getPixel (h : s.Holds p) (hin : 1 ≤ p.data.length)
    (hroom : 2 * p.data.length + 3 < 2 ^ 62) :
    AgreesNext s (Store.getPixel d) (p.lookUp d p.screen.get) :=
  h.lookUp hin hroom fun key => by rw [h.screen]

theorem storeTop (h : s.Holds p) (hin : 2 ≤ p.data.length) :
    AgreesNext s (Store.storeTop d) (p.store d) := by
  obtain ⟨key, value, rest, hp⟩ := exists_cons_cons hin
  simp only [PlainStore.store, hp]
  have hkey : Store.peek d 0 s = .ok key s := h.peek (by simp [hp])
  have hvalue : Store.peek d 1 s = .ok value s := h.peek (by simp [hp])
  apply AgreesNext.after hkey
  apply AgreesNext.after hvalue
  exact h.assignDrop hp (.memory key) value

theorem loadTop (h : s.Holds p) (hin : 1 ≤ p.data.length)
    (hroom : 2 * p.data.length + 3 < 2 ^ 62) :
    AgreesNext s (Store.loadTop d) (p.lookUp d fun key => p.cells.read (.memory key)) :=
  h.lookUp hin hroom fun key => by rw [h.cells]

end Store.Holds

/-- Carrying out an instruction ended like the effect on the plain store that the store holds, and
the console is the same. After a fault the store is as it was. -/
def Machine.Outcome.Agrees (o : Machine.Outcome) (s : Store) : Effect × Console → Prop
  | (.ok (flow, q), c) => ∃ t, o = ⟨.ok flow, t, c⟩ ∧ t.Holds q
  | (.error fault, c) => o = ⟨.error fault, s, c⟩

namespace Machine

variable {s : Store} {p : PlainStore} {d : Decoded}

theorem quiet_agrees {action : Action Flow} {effect : Effect} (h : Agrees s (action s) effect)
    (c : Console) : (quiet action s c).Agrees s (effect, c) := by
  match effect with
  | .ok (flow, q) =>
    obtain ⟨t, ht, hold⟩ := h
    exact ⟨t, by simp [quiet, ht], hold⟩
  | .error fault =>
    have hfault : action s = .error fault s := h
    simp [Outcome.Agrees, quiet, hfault]

theorem onward_agrees {action : Action Unit} {effect : Effect} (h : AgreesNext s action effect)
    (c : Console) : (onward action s c).Agrees s (effect, c) :=
  quiet_agrees h c

/-- An instruction that prints leaves the store alone. -/
theorem printing_agrees (h : s.Holds p) {action : Action (List UInt8)} {bytes : List UInt8}
    (ha : action s = .ok bytes s) (hp : p.printed? d.instruction = some bytes) (callDepth : Nat)
    (c : Console) : (printing action s c).Agrees s (p.execute callDepth d c) := by
  rw [PlainStore.execute_printed hp]
  simp only [printing, ha]
  rcases c.print bytes with ⟨fault | _, c'⟩
  · exact rfl
  · exact ⟨s, rfl, h⟩

/-- What stands on the stack decides what is printed. -/
theorem printing_of_printed (h : s.Holds p) {bytes : List UInt8}
    (hp : p.printed? d.instruction = some bytes) (callDepth : Nat) (c : Console) :
    ∃ action : Action (List UInt8), execute callDepth d s c = printing action s c ∧
      action s = .ok bytes s := by
  have hpeek {value : Int32} {rest : List Int32} (hd : p.data = value :: rest) :
      Store.peek d 0 s = .ok value s := h.peek (by simp [hd])
  unfold printed? at hp
  unfold execute
  split at hp <;> cases hp
  · rename_i hi hd
    rw [hi]
    refine ⟨_, rfl, ?_⟩
    simp only [bind, EStateM.bind, hpeek hd]
    rfl
  · rename_i hi hd
    rw [hi]
    refine ⟨_, rfl, ?_⟩
    simp only [bind, EStateM.bind, hpeek hd]
    rfl
  · rename_i hi
    rw [hi]
    exact ⟨_, rfl, rfl⟩
  · rename_i hi
    rw [hi, ← h.screen]
    exact ⟨_, rfl, rfl⟩

theorem reading_agrees (h : s.Holds p) (hroom : 2 * p.data.length + 3 < 2 ^ 62)
    (hr : d.instruction = .read) (callDepth : Nat) (c : Console) :
    (reading d s c).Agrees s (p.execute callDepth d c) := by
  simp only [PlainStore.execute, hr, reading, ↓reduceIte]
  rcases c.readNumber with ⟨fault | value, c'⟩
  · exact rfl
  · obtain ⟨t, ht, hold⟩ := h.push (d := d) hroom value
    exact onward_agrees (.ok ht hold) c'

/-- The same for an instruction that does not use the console. -/
theorem effect_agrees (h : s.Holds p) (hin : d.instruction.inputs ≤ p.data.length)
    (hdata : 2 * p.data.length + 3 < 2 ^ 62) (hcalls : 2 * p.calls.length + 3 < 2 ^ 62)
    (hr : d.instruction ≠ .read) (hn : p.printed? d.instruction = none)
    (callDepth : Nat) (c : Console) :
    (execute callDepth d s c).Agrees s (p.effect callDepth d, c) := by
  have hhalt : Agrees s ((return .halt : Action Flow) s) (.ok (.halt, p)) := ⟨s, rfl, h⟩
  have habort : Agrees s ((throw (.aborted d.offset) : Action Flow) s)
      (.error (.aborted d.offset)) := rfl
  unfold execute effect
  cases hi : d.instruction <;> rw [hi] at hin hr hn
  case halt => exact quiet_agrees hhalt c
  case abort => exact quiet_agrees habort c
  case push => exact onward_agrees (h.pushAnswer hdata (by rw [h.cells, Decoded.operand])) c
  case pop => exact onward_agrees (h.dropTop hin) c
  case dup => exact onward_agrees (h.dup hin hdata) c
  case move => exact onward_agrees (h.moveTop hin) c
  case add => exact onward_agrees (h.combine hin hdata (· + ·)) c
  case sub => exact onward_agrees (h.combine hin hdata (· - ·)) c
  case mul => exact onward_agrees (h.combine hin hdata (· * ·)) c
  case div => exact onward_agrees (h.divide hin hdata) c
  case jump => exact quiet_agrees h.jump c
  case jumpGreater => exact quiet_agrees (h.branch hin fun a b => b < a) c
  case jumpLess => exact quiet_agrees (h.branch hin fun a b => a < b) c
  case jumpEqual => exact quiet_agrees (h.branch hin fun a b => a = b) c
  case jumpGreaterEqual => exact quiet_agrees (h.branch hin fun a b => b ≤ a) c
  case jumpLessEqual => exact quiet_agrees (h.branch hin fun a b => a ≤ b) c
  case call => exact quiet_agrees (h.call callDepth hcalls) c
  case ret => exact quiet_agrees h.goBack c
  case getRegister => exact onward_agrees (h.pushAnswer hdata (by rw [h.cells])) c
  case setRegister => exact onward_agrees (h.copyToRegister hin) c
  case setPixel => exact onward_agrees (h.setPixel hin) c
  case getPixel => exact onward_agrees (h.getPixel hin hdata) c
  case store => exact onward_agrees (h.storeTop hin) c
  case load => exact onward_agrees (h.loadTop hin hdata) c
  case read => exact absurd rfl hr
  case clear => cases hn
  case draw => cases hn
  case print =>
    obtain ⟨value, rest, hp⟩ := List.exists_cons_of_length_pos hin
    simp [printed?, hp] at hn
  case printChar =>
    obtain ⟨value, rest, hp⟩ := List.exists_cons_of_length_pos hin
    simp [printed?, hp] at hn

/-- Carrying out an instruction whose inputs are there does to the store what it does to the plain
store that the store holds. -/
theorem execute_agrees (h : s.Holds p) (hin : d.instruction.inputs ≤ p.data.length)
    (hdata : 2 * p.data.length + 3 < 2 ^ 62) (hcalls : 2 * p.calls.length + 3 < 2 ^ 62)
    (callDepth : Nat) (c : Console) :
    (execute callDepth d s c).Agrees s (p.execute callDepth d c) := by
  by_cases hr : d.instruction = .read
  · have hreading : execute callDepth d s c = reading d s c := by
      rw [execute, hr]
      rfl
    rw [hreading]
    exact reading_agrees h hdata hr callDepth c
  · cases hp : p.printed? d.instruction with
    | none =>
      have hquiet : p.execute callDepth d c = (p.effect callDepth d, c) := by
        simp only [PlainStore.execute, hr, hp, ↓reduceIte]
      rw [hquiet]
      exact effect_agrees h hin hdata hcalls hr hp callDepth c
    | some bytes =>
      obtain ⟨action, hprinting, ha⟩ := printing_of_printed h hp callDepth c
      rw [hprinting]
      exact printing_agrees h ha hp callDepth c

end Machine

end StackMachine
