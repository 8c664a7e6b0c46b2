import StackMachine.Proofs.Machine.Steps

namespace StackMachine

namespace GuardedStack

/-- The slots of a stack, or those it has after growing with the words that are live now. -/
def reach (s : GuardedStack) : Nat :=
  max s.capacity.toNat (2 * s.size.toNat + 1)

theorem reach_of_push {s t : GuardedStack} {word : Int64} (h : s.push word = .ok t) :
    t.reach ≤ s.reach + 2 := by
  have hsize : (s.size + 1).toNat ≤ s.size.toNat + 1 := by
    rw [UInt64.toNat_add]
    exact Nat.mod_le _ _
  have hgrown : (s.capacity * 2 + 1).toNat ≤ 2 * s.capacity.toNat + 1 := by
    rw [UInt64.toNat_add, UInt64.toNat_mul, Nat.mul_comm]
    exact (Nat.mod_le _ _).trans (Nat.succ_le_succ (Nat.mod_le _ _))
  simp only [push, bind, Except.bind] at h
  split at h
  · cases h
  · cases h
    by_cases hfull : s.capacity < s.size + 1
    -- Where a stack grows, its size is not below its slots, so the new slots are within its reach.
    · have hless := UInt64.lt_iff_toNat_lt.mp hfull
      simp only [reach, rehash, hfull, resize, ↓reduceIte]
      omega
    · simp only [reach, rehash, hfull, ↓reduceIte]
      omega

theorem reach_of_pop {s t : GuardedStack} {word : Int64} (h : s.pop = .ok (word, t)) :
    t.reach ≤ s.reach := by
  simp only [pop, bind, Except.bind] at h
  split at h
  · cases h
  · split at h
    · cases h
    · rename_i hne
      cases h
      have hsize := toNat_sub_one hne
      have hshrunk : (s.capacity / 2 + 1).toNat ≤ s.capacity.toNat / 2 + 1 := by
        rw [UInt64.toNat_add, UInt64.toNat_div]
        exact Nat.mod_le _ _
      by_cases hsparse : (s.size - 1) * 4 < s.capacity
      · have hless := UInt64.lt_iff_toNat_lt.mp hsparse
        simp only [reach, rehash, hsparse, resize, ↓reduceIte]
        omega
      · simp only [reach, rehash, hsparse, ↓reduceIte]
        omega

end GuardedStack

namespace Store

/-- How far the two stacks reach. -/
def reach (s : Store) : Nat :=
  max s.data.reach s.calls.reach

/-- The store that an action leaves behind. -/
def left {α : Type} : EStateM.Result Fault Store α → Store
  | .ok _ s => s
  | .error _ s => s

/-- An action lets the stacks reach no more than so much further. -/
def GrowsBy {α : Type} (n : Nat) (action : Action α) : Prop :=
  ∀ s, (left (action s)).reach ≤ s.reach + n

namespace GrowsBy

variable {α β : Type} {n : Nat} {d : Decoded}

theorem pure (a : α) : GrowsBy n (Pure.pure a : Action α) :=
  fun _ => Nat.le_add_right _ _

theorem throw (fault : Fault) : GrowsBy n (MonadExcept.throw fault : Action α) :=
  fun _ => Nat.le_add_right _ _

/-- What comes after may grow, if what comes first does not. -/
theorem after {first : Action α} {rest : α → Action β} (hf : GrowsBy 0 first)
    (hr : ∀ a, GrowsBy n (rest a)) : GrowsBy n (first >>= rest) := by
  intro s
  have hfirst := hf s
  simp only [bind, EStateM.bind]
  cases h : first s with
  | ok a t =>
    rw [h, left] at hfirst
    exact (hr a t).trans (Nat.add_le_add_right hfirst n)
  | error fault t =>
    rw [h] at hfirst
    exact hfirst.trans (Nat.le_add_right _ n)

/-- What comes first may grow, if what comes after does not. -/
theorem before {first : Action α} {rest : α → Action β} (hf : GrowsBy n first)
    (hr : ∀ a, GrowsBy 0 (rest a)) : GrowsBy n (first >>= rest) := by
  intro s
  have hfirst := hf s
  simp only [bind, EStateM.bind]
  cases h : first s with
  | ok a t =>
    rw [h, left] at hfirst
    exact (hr a t).trans hfirst
  | error fault t =>
    rw [h] at hfirst
    exact hfirst

theorem ask (question : Store → Except Fault α) : GrowsBy n (Store.ask question) := by
  intro s
  unfold Store.ask
  split <;> exact Nat.le_add_right _ _

theorem change {change : Store → Store} (h : ∀ s, (change s).reach = s.reach) :
    GrowsBy n (modify change : Action Unit) := by
  intro s
  rw [modify_eq, left, h]
  exact Nat.le_add_right _ _

theorem peek (depth : Nat) : GrowsBy n (Store.peek d depth) := by
  intro s
  unfold Store.peek
  split <;> exact Nat.le_add_right _ _

theorem pop : GrowsBy n (Store.pop d) := by
  intro s
  unfold Store.pop
  split
  · rename_i hpop
    have hle := GuardedStack.reach_of_pop hpop
    simp only [left, reach]
    omega
  · exact Nat.le_add_right _ _

theorem push (value : Int32) : GrowsBy 2 (Store.push d value) := by
  intro s
  unfold Store.push
  split
  · rename_i hpush
    have hle := GuardedStack.reach_of_push hpush
    simp only [left, reach]
    omega
  · exact Nat.le_add_right _ _

theorem remember : GrowsBy 2 (Store.remember d) := by
  intro s
  unfold Store.remember
  split
  · rename_i hpush
    have hle := GuardedStack.reach_of_push hpush
    simp only [left, reach]
    omega
  · exact Nat.le_add_right _ _
  · exact Nat.le_add_right _ _

theorem drop : GrowsBy n (Store.drop d) :=
  after pop fun _ => pure _

theorem assign (operand : Operand) (value : Int32) : GrowsBy n (Store.assign operand value) :=
  after (ask _) fun _ => change fun _ => rfl

theorem pushOperand (operand : Operand) : GrowsBy 2 (Store.pushOperand d operand) :=
  after (ask _) fun value => push value

theorem dup : GrowsBy 2 (Store.dup d) :=
  after (peek 0) fun value => push value

theorem moveTop (operand : Operand) : GrowsBy n (Store.moveTop d operand) := by
  apply after (peek 0)
  intro value
  split
  · exact drop
  · exact after (assign _ value) fun _ => drop

theorem combine (operation : Int32 → Int32 → Int32) : GrowsBy 2 (Store.combine d operation) :=
  after pop fun b => after pop fun a => push (operation a b)

theorem divide : GrowsBy 2 (Store.divide d) := by
  apply after (peek 0)
  intro divisor
  split
  · exact throw _
  · exact combine _

theorem jump (target : Int32) : GrowsBy n (Store.jump d target) :=
  after (ask _) fun _ => pure _

theorem branch (target : Int32) (test : Int32 → Int32 → Bool) :
    GrowsBy n (Store.branch d target test) :=
  after (ask _) fun _ => after pop fun _ => after pop fun _ => pure _

theorem call (target : Int32) (callDepth : Nat) :
    GrowsBy 2 (Store.call d target callDepth) := by
  apply after (ask _)
  intro distance
  apply after (ask _)
  intro depth
  split
  · exact throw _
  · exact before remember fun _ => pure _

theorem goBack : GrowsBy n (Store.goBack d) := by
  intro s
  unfold Store.goBack
  split
  · rename_i hpop
    have hle := GuardedStack.reach_of_pop hpop
    simp only [left, reach]
    omega
  · exact Nat.le_add_right _ _
  · exact Nat.le_add_right _ _

theorem pushRegister (index : Int32) : GrowsBy 2 (Store.pushRegister d index) :=
  after (ask _) fun value => push value

theorem copyToRegister (index : Int32) : GrowsBy n (Store.copyToRegister d index) :=
  after (peek 0) fun _ => after (ask _) fun _ => change fun _ => rfl

theorem setPixel : GrowsBy n (Store.setPixel d) :=
  after (peek 0) fun _ => after (peek 1) fun _ => after (ask _) fun _ =>
    after (change fun _ => rfl) fun _ => drop

theorem getPixel : GrowsBy 2 (Store.getPixel d) :=
  after (peek 0) fun _ => after (ask _) fun value => after drop fun _ => push value

theorem storeTop : GrowsBy n (Store.storeTop d) :=
  after (peek 0) fun _ => after (peek 1) fun _ => after (assign _ _) fun _ => drop

theorem loadTop : GrowsBy 2 (Store.loadTop d) :=
  after (peek 0) fun _ => after (ask _) fun value => after drop fun _ => push value

end GrowsBy

end Store

namespace Machine

variable {s : Store} {c : Console}

theorem reach_quiet {n : Nat} {action : Action Flow} (h : Store.GrowsBy n action) :
    (quiet action s c).store.reach ≤ s.reach + n := by
  have hs := h s
  unfold quiet
  split
  · rename_i ha
    rwa [ha] at hs
  · rename_i ha
    rwa [ha] at hs

theorem reach_onward {n : Nat} {action : Action Unit} (h : Store.GrowsBy n action) :
    (onward action s c).store.reach ≤ s.reach + n :=
  reach_quiet (.before h fun _ => .pure _)

theorem reach_printing {n : Nat} {bytes : Action (List UInt8)} (h : Store.GrowsBy n bytes) :
    (printing bytes s c).store.reach ≤ s.reach + n := by
  have hs := h s
  unfold printing
  split
  · rename_i ha
    rwa [ha] at hs
  · rename_i ha
    rw [ha] at hs
    split <;> exact hs

theorem reach_reading (d : Decoded) : (reading d s c).store.reach ≤ s.reach + 2 := by
  unfold reading
  split
  · exact reach_onward (.push _)
  · exact Nat.le_add_right _ _

/-- An instruction pushes one word at most. -/
theorem reach_execute (callDepth : Nat) (d : Decoded) :
    (execute callDepth d s c).store.reach ≤ s.reach + 2 := by
  unfold execute
  cases d.instruction with
  | halt => exact reach_quiet (.pure _)
  | abort => exact reach_quiet (.throw _)
  | push => exact reach_onward (.pushOperand _)
  | pop => exact reach_onward .drop
  | dup => exact reach_onward .dup
  | move => exact reach_onward (.moveTop _)
  | add | sub | mul => exact reach_onward (.combine _)
  | div => exact reach_onward .divide
  | jump => exact reach_quiet (.jump _)
  | jumpGreater | jumpLess | jumpEqual | jumpGreaterEqual | jumpLessEqual =>
    exact reach_quiet (.branch _ _)
  | call => exact reach_quiet (.call _ _)
  | ret => exact reach_quiet .goBack
  | getRegister => exact reach_onward (.pushRegister _)
  | setRegister => exact reach_onward (.copyToRegister _)
  | print | printChar => exact reach_printing (.after (.peek 0) fun _ => .pure _)
  | read => exact reach_reading d
  | setPixel => exact reach_onward .setPixel
  | getPixel => exact reach_onward .getPixel
  | store => exact reach_onward .storeTop
  | load => exact reach_onward .loadTop
  | clear => exact reach_printing (.pure _)
  | draw => exact reach_printing fun _ => Nat.le_add_right _ _

theorem reach_step (m : Machine) : m.step.machine.store.reach ≤ m.store.reach + 2 := by
  unfold step
  split
  · exact Nat.le_add_right _ _
  · split
    · exact Nat.le_add_right _ _
    · rename_i d _
      have hle := @reach_execute m.store m.console m.callDepth d
      split
      · rename_i he
        rwa [he] at hle
      · rename_i he
        rw [he] at hle
        simp only
        rw [advance_frame]
        exact hle

theorem reach_after (m : Machine) (count : Nat) :
    (m.after count).store.reach ≤ m.store.reach + 2 * count := by
  induction count with
  | zero => exact Nat.le_refl _
  | succ count ih =>
    have hstep := reach_step (m.after count)
    simp only [after]
    omega

theorem reach_start {program : Program} {sizes : Sizes} {console : Console} {m : Machine}
    (h : start program sizes console = .ok m) : m.store.reach ≤ Sizes.maxSlots := by
  obtain ⟨hdata, hcalls, memory, registers, screen, -, -, -, rfl⟩ := start_eq h
  have hempty {n : Nat} (hn : n ≤ Sizes.maxSlots) :
      (GuardedStack.empty (UInt64.ofNat n)).reach ≤ Sizes.maxSlots := by
    have hmod : (UInt64.ofNat n).toNat ≤ n := Nat.mod_le _ _
    have hsize : (GuardedStack.empty (UInt64.ofNat n)).size.toNat = 0 := rfl
    have hone : 1 ≤ Sizes.maxSlots := by decide
    simp only [GuardedStack.reach, hsize]
    exact Nat.max_le.mpr ⟨hmod.trans hn, hone⟩
  exact Nat.max_le.mpr ⟨hempty hdata, hempty hcalls⟩

theorem fits_of_reach {m : Machine} {p : PlainStore} (h : m.store.Holds p)
    (hr : m.store.reach + 2 < 2 ^ 60) : m.Fits := by
  have hdata := h.data.buffer_size
  have hcalls := h.calls.buffer_size
  simp only [Store.reach, GuardedStack.reach] at hr
  simp only [Fits, GuardedStack.Fits]
  omega

/-- All buffers in a run of so many steps can be allocated. -/
theorem fitsFor_of_start {program : Program} {sizes : Sizes} {console : Console} {m : Machine}
    (h : start program sizes console = .ok m) {count : Nat} (hc : count ≤ 2 ^ 58) :
    m.FitsFor count := by
  have hmax : Sizes.maxSlots = 2 ^ 24 := rfl
  have hstart := reach_start h
  obtain ⟨-, -, -, -, p, hold, -, -⟩ := start_holds h
  have hroom : ∀ k ≤ count, (m.after k).store.reach + 2 < 2 ^ 60 := by
    intro k hk
    have hreach := reach_after m k
    omega
  clear hc
  induction count with
  | zero =>
    intro k hk
    cases Nat.le_zero.mp hk
    exact fits_of_reach hold (hroom 0 (Nat.le_refl 0))
  | succ count ih =>
    have hfits := ih fun k hk => hroom k (Nat.le_succ_of_le hk)
    intro k hk
    rcases Nat.le_succ_iff.mp hk with hle | rfl
    · exact hfits k hle
    · obtain ⟨-, -, q, hold'⟩ := after_holds hold hfits
      obtain ⟨-, -, q', hold''⟩ := step_holds hold' (hfits count (Nat.le_refl count))
      exact fits_of_reach hold'' (hroom _ (Nat.le_refl _))

end Machine

end StackMachine
