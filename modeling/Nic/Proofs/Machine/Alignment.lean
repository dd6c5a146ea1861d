/-
The program counter is always the address of an instruction.

A machine stops when its program counter is no multiple of four, and nothing but a request to set it
can make it so. The program itself cannot, whatever words it comes to execute, be they data, parts
of its input, or what it has written over its own code: the two low bits of a jump's address byte
are the condition, so no word has a target with other bits there than zeros, and the end of memory
is a multiple of four as well.

The invariant is `Aligned`. It ties the program counter to the address of the next instruction,
which is where the machine goes unless it jumps, and what becomes of it in an action is read off
`Controlled`.
-/
import Nic.Proofs.Machine.Phases

set_option autoImplicit false

namespace Nic

theorem Byte.aligned_add_four {b : Byte} (h : b.aligned = b) : (b + 4).aligned = b + 4 := by
  revert b; decide

theorem Byte.toNat_mod_four {b : Byte} (h : b.aligned = b) : b.toNat % 4 = 0 := by
  have hround := Byte.toNat_aligned b
  rw [h] at hround
  omega

namespace Machine

/-- Program counter and next address are those of instructions, and the one follows the other if an
instruction was fetched. -/
structure Aligned (c : Control) : Prop where
  pc : c.pc.aligned = c.pc
  nr : c.nr.aligned = c.nr
  status : c.status ≠ .badAlignment
  next : c.phase = .execute → c.nr = c.pc + 4

/-- A machine that is new, or starts over. -/
theorem aligned_zero : Aligned ⟨0, 0, .ok, .fetch⟩ where
  pc := by decide
  nr := by decide
  status := nofun
  next := nofun

/-- **Every action but the one that sets the program counter keeps it aligned.** -/
theorem Controlled.aligned {a : Action} {c c' : Control} (h : Controlled a c c')
    (ha : ∀ x, a ≠ .setPc x) (hc : Aligned c) : Aligned c' := by
  cases h with
  | keep => exact hc
  | start => exact aligned_zero
  | setPc => exact absurd rfl (ha _)
  | fetched => exact ⟨hc.pc, Byte.aligned_add_four hc.pc, nofun, fun _ => rfl⟩
  | misaligned _ _ hpc => exact absurd hc.pc hpc
  | badInstruction => exact ⟨hc.pc, hc.nr, nofun, nofun⟩
  | executed _ _ hpc hleft =>
    refine ⟨?_, hc.nr, ?_, nofun⟩
    · rcases hpc with rfl | haligned
      · exact hc.nr
      · exact haligned
    · rcases hleft with rfl | rfl
      · exact hc.status
      · exact nofun

/-- **The program counter stays aligned.** A new machine with any settings is used in any way, but
its program counter is never set by hand. Then program counter and next address are multiples of
four, and the status is never that of a bad address. If the machine is about to execute, then the
next address is four after the program counter, modulo 256, and the status is ok. -/
theorem aligned_of_requests {flags : Flags} {requests : List Request} {m : Machine}
    (hrequests : ∀ q ∈ requests, ∀ x, q ≠ .setPc x)
    (h : (Machine.new flags).afterAll? requests = some m) :
    m.pc.toNat % 4 = 0 ∧ m.nr.toNat % 4 = 0 ∧ m.status ≠ .badAlignment ∧
      (m.phase = .execute → m.nr.toNat = (m.pc.toNat + 4) % 256 ∧ m.status = .ok) := by
  have hreaches : Reaches (fun a => ∀ x, a ≠ .setPc x) (Machine.new flags) m := by
    refine reaches_of_requests ?_ h
    rintro q hq _ huses x rfl
    exact hrequests q hq x huses
  have haligned : Aligned m.control := by
    refine hreaches.invariant (P := fun m => Aligned m.control) ?_ aligned_zero
    intro m a ha hm
    exact (controlled_act m a).aligned ha hm
  refine ⟨Byte.toNat_mod_four haligned.pc, Byte.toNat_mod_four haligned.nr, haligned.status, ?_⟩
  intro hphase
  refine ⟨?_, orderly_of_requests h hphase⟩
  have hnext : m.nr = m.pc + 4 := haligned.next hphase
  rw [hnext, BitVec.toNat_add]
  rfl

/-- The program changes the last digit of its own jump, which is then taken and whose address byte
is the last address of memory. The machine has fetched the word there, and goes on at address 0. -/
theorem aligned_of_requests_last_word :
    ∃ m, (Machine.new .default).afterAll? [.load ⟨[2, 1, 15, 0, 4, 1, 0, 15, 15, 0, 0, 1,
        15, 0, 15, 1], none⟩, .runWithLimit 4, .writeCell 255 3, .fetch] = some m ∧
      m.pc = 0xfc ∧ m.phase = .execute ∧ m.nr.toNat = (m.pc.toNat + 4) % 256 ∧
      m.status ≠ .badAlignment := by
  have hfetched : ((Machine.new .default).afterAll? [.load ⟨[2, 1, 15, 0, 4, 1, 0, 15, 15, 0, 0, 1,
      15, 0, 15, 1], none⟩, .runWithLimit 4, .writeCell 255 3, .fetch]).any (fun m =>
        decide (m.pc = 0xfc ∧ m.phase = .execute)) = true := by decide +kernel
  obtain ⟨m, hm, hdecide⟩ := (Option.any_eq_true _ _).mp hfetched
  obtain ⟨hpc, hphase⟩ := of_decide_eq_true hdecide
  obtain ⟨-, -, hstatus, hnext⟩ := aligned_of_requests (by simp) hm
  exact ⟨m, hm, hpc, hphase, (hnext hphase).1, hstatus⟩

end Machine

end Nic
