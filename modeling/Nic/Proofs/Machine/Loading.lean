/-
What a machine has in its memory.

An executable fits into memory, wherever it comes from. So all of its image is there when it is
loaded, and again whenever the machine starts over, as long as nothing else is loaded
(`image_of_requests`).

Between that, memory is changed by a few actions only, and `Edits` says how: starting over clears
and fills it, an instruction may store one byte, and a cell may be set by hand. `mem_act` says that
there is nothing else. A memory with a byte for each cell that is changed in the same way therefore
shows the cells of the machine all along, whatever was in it before (`Follows.shows_start`).
-/
import Nic.Proofs.Executable.Obtainable
import Nic.Proofs.Machine.Snapshot
import Nic.Proofs.Memory

set_option autoImplicit false

namespace Nic

/-- The bytes that an image is made of are its cells: no bits are lost. -/
theorem Executable.eq_image_of_ofBytes {bytes : List Byte} {e : Executable}
    (h : ofBytes bytes = .ok e) : bytes = e.image.map Nibble.toByte := by
  obtain ⟨-, hdigits, rfl⟩ := ofBytes_eq_ok_iff.mp h
  have hbytes : ∀ b ∈ bytes, (Byte.low b).toByte = b := fun b hb =>
    Byte.toByte_low_of_high (hdigits b hb)
  rw [List.map_map]
  exact ((List.map_congr_left hbytes).trans (List.map_id' bytes)).symm

namespace Machine

/-! ## Taking an image -/

/-- Whether the machine takes an image from elsewhere when it is asked for this. -/
def Request.loads : Request → Bool
  | load _ => true
  | loadText text => (Executable.ofText text).isOk
  | _ => false

/-- The action takes no other image than this one. -/
def Action.TakesOnly (image : List Nibble) : Action → Prop
  | .start image' => image' = image
  | _ => True

theorem image_act {m : Machine} {a : Action} (h : a.TakesOnly m.image) :
    (m.act a).image = m.image := by
  cases a with
  | start image => exact (congrArg Prod.fst (kept_reset { m with image })).trans h
  | fetch => exact congrArg Prod.fst (kept_fetch m)
  | execute => exact congrArg Prod.fst (kept_execute m)
  | setReg r b =>
    have hset := congrArg image (unobserved_setReg m r b)
    exact hset
  | setPc a =>
    have hset := congrArg image (unobserved_setPc m a)
    exact hset
  | setCell a d =>
    have hset := congrArg image (unobserved_setCell m a d)
    exact hset
  | setFlags flags => rfl
  | clear => rfl

/-- A request that does not load makes the machine start over with the image that it has, if at
all. -/
theorem image_of_request {m m' : Machine} {q : Request} (hloads : q.loads = false)
    (h : q.after? m = some m') : m'.image = m.image := by
  have hreaches : Reaches (Action.TakesOnly m.image) m m' := by
    by_cases hover : q.startsOver = true
    · cases q with
      | load e => cases hloads
      | loadText text => exact absurd hover (Bool.eq_false_iff.mp hloads)
      | reset =>
        obtain rfl : m.reset = m' := Option.some.inj h
        have htakes : (Action.start m.image).TakesOnly m.image := rfl
        exact .act htakes m
      | executeIo input =>
        cases h
        have htakes : (Action.start m.image).TakesOnly m.image := rfl
        exact reaches_executeIo trivial trivial htakes (fun _ _ => trivial) input
      | _ => cases hover
    · refine Relation.ReflTransGen.mono ?_ m m' (reaches_of_request h)
      rintro n n' ⟨a, ha, rfl⟩
      refine ⟨a, ?_, rfl⟩
      cases a with
      | start image => exact absurd ha hover
      | _ => trivial
  refine hreaches.invariant (P := fun n => n.image = m.image) ?_ rfl
  intro n a ha hn
  rw [← hn] at ha
  exact (image_act ha).trans hn

theorem image_of_requests {requests : List Request} {m m' : Machine}
    (hloads : ∀ q ∈ requests, q.loads = false) (h : m.afterAll? requests = some m') :
    m'.image = m.image := by
  induction requests generalizing m with
  | nil =>
    cases h
    rfl
  | cons q requests ih =>
    obtain ⟨m₁, hm₁, hrest⟩ := Option.bind_eq_some_iff.mp h
    have hfirst := image_of_request (hloads q List.mem_cons_self) hm₁
    have hlater := ih (fun q' hq' => hloads q' (List.mem_cons_of_mem q hq')) hrest
    exact hlater.trans hfirst

theorem holds_reset (m : Machine) : m.reset.mem.Holds m.image := fun a => by
  rw [mem_reset, Memory.get_zero_copy]

theorem holds_load (m : Machine) (e : Executable) : (m.load e).mem.Holds e.image :=
  holds_reset { m with image := e.image }

theorem image_load (m : Machine) (e : Executable) : (m.load e).image = e.image := by
  have hkept := congrArg Prod.fst (kept_reset { m with image := e.image })
  exact hkept

/-! ## Changing memory -/

/-- What an instruction does to memory. -/
def storesOf (m : Machine) : Instr → List Memory.Edit
  | .imm .store a x => [.writeByte x (m.reg a)]
  | .pair .storer a b => [.writeByte (m.reg b) (m.reg a)]
  | _ => []

/-- What executing does to memory. -/
def stores (m : Machine) : List Memory.Edit :=
  if m.status.isTerminal then []
  else if m.phase = .fetch then []
  else match Instr.decode m.ir with
    | none => []
    | some i => m.storesOf i

/-- The changes that an action makes to memory. A digit may come in a byte with any other digit
before it. -/
def Edits (m : Machine) : Action → List Memory.Edit → Prop
  | .start image, edits => ∃ bytes, bytes.map Byte.low = image ∧ edits = [.clear, .copy bytes]
  | .execute, edits => edits = m.stores
  | .setCell a d, edits => ∃ b, Byte.low b = d ∧ edits = [.set a b]
  | _, edits => edits = []

theorem exists_edits (m : Machine) (a : Action) : ∃ edits, m.Edits a edits := by
  cases a with
  | start image =>
    refine ⟨_, image.map Nibble.toByte, ?_, rfl⟩
    rw [List.map_map]
    exact List.map_id'' Byte.low_toByte image
  | setCell a d => exact ⟨_, d.toByte, Byte.low_toByte d, rfl⟩
  | _ => exact ⟨_, rfl⟩

theorem mem_perform (m : Machine) (i : Instr) :
    (m.perform i).mem = m.mem.editAll (m.storesOf i) := by
  cases i with
  | halt => exact congrArg Snapshot.mem (snapshot_setStatus m _)
  | imm op a x =>
    cases op with
    | store => exact congrArg Snapshot.mem (snapshot_writeByte m _ _)
    | _ => exact congrArg Snapshot.mem (snapshot_setReg m _ _)
  | pair op a b =>
    cases op with
    | storer => exact congrArg Snapshot.mem (snapshot_writeByte m _ _)
    | _ => exact congrArg Snapshot.mem (snapshot_setReg m _ _)
  | alu op a b c => exact congrArg Snapshot.mem (snapshot_setReg m _ _)
  | jump a cond target => rfl

theorem mem_fetch (m : Machine) : m.fetch.2.mem = m.mem := by
  rw [fetch_eq]
  split
  · rfl
  split
  · rfl
  split
  · exact congrArg Snapshot.mem (snapshot_readInstr m)
  · exact congrArg Snapshot.mem (snapshot_setStatus m _)

theorem mem_execute (m : Machine) : m.execute.2.mem = m.mem.editAll m.stores := by
  rw [execute_eq, stores]
  split
  · rfl
  split
  · rfl
  cases Instr.decode m.ir with
  | none => exact congrArg Snapshot.mem (snapshot_setStatus m.toFetch _)
  | some i =>
    have hset := congrArg Snapshot.mem
      (snapshot_setPc (m.toFetch.perform i) (m.toFetch.successor i))
    exact hset.trans (mem_perform m.toFetch i)

/-- **Actions change memory as they say**, and in no other way. -/
theorem mem_act {m : Machine} {a : Action} {edits : List Memory.Edit} (h : m.Edits a edits) :
    (m.act a).mem = m.mem.editAll edits := by
  cases a with
  | start image =>
    obtain ⟨bytes, rfl, rfl⟩ := h
    rw [act, mem_reset]
    rfl
  | fetch =>
    cases h
    exact mem_fetch m
  | execute =>
    cases h
    exact mem_execute m
  | setReg r b =>
    cases h
    exact congrArg Snapshot.mem (snapshot_setReg m r b)
  | setPc a =>
    cases h
    exact congrArg Snapshot.mem (snapshot_setPc m a)
  | setCell a d =>
    obtain ⟨b, rfl, rfl⟩ := h
    exact congrArg Snapshot.mem (snapshot_setCell m a (Byte.low b))
  | setFlags flags =>
    cases h
    rfl
  | clear =>
    cases h
    rfl

/-- The machine after actions, one after the other. -/
def actAll (m : Machine) (actions : List Action) : Machine := actions.foldl act m

theorem Reaches.exists_actions {kind : Action → Prop} {m m' : Machine} (h : Reaches kind m m') :
    ∃ actions, (∀ a ∈ actions, kind a) ∧ m.actAll actions = m' := by
  induction h with
  | refl => exact ⟨[], List.forall_mem_nil _, rfl⟩
  | tail _ hstep ih =>
    obtain ⟨actions, hkind, rfl⟩ := ih
    obtain ⟨a, ha, rfl⟩ := hstep
    refine ⟨actions ++ [a], ?_, List.foldl_concat ..⟩
    simpa [or_imp, forall_and] using ⟨hkind, ha⟩

/-! ## Memory in bytes -/

/-- A memory of bytes becomes another one by the changes that actions of a machine make. -/
inductive Follows : Machine → List Action → ByteMemory → ByteMemory → Prop where
  | nil {m : Machine} {w : ByteMemory} : Follows m [] w w
  | cons {m : Machine} {a : Action} {actions : List Action} {edits : List Memory.Edit}
    {w w' : ByteMemory} (h : m.Edits a edits)
    (hrest : Follows (m.act a) actions (w.editAll edits) w') : Follows m (a :: actions) w w'

theorem exists_follows (m : Machine) (actions : List Action) (w : ByteMemory) :
    ∃ w', Follows m actions w w' := by
  induction actions generalizing m w with
  | nil => exact ⟨w, .nil⟩
  | cons a actions ih =>
    obtain ⟨edits, hedits⟩ := exists_edits m a
    obtain ⟨w', hw'⟩ := ih (m.act a) (w.editAll edits)
    exact ⟨w', .cons hedits hw'⟩

/-- **The cells of the machine are in the bytes all along.** -/
theorem Follows.shows {m : Machine} {actions : List Action} {w w' : ByteMemory}
    (h : Follows m actions w w') (hw : w.Shows m.mem) : w'.Shows (m.actAll actions).mem := by
  induction h with
  | nil => exact hw
  | cons hedits _ ih =>
    refine ih ?_
    rw [mem_act hedits]
    exact hw.editAll _

/-- When the machine starts over, it does not matter what was in memory. -/
theorem Follows.shows_start {m : Machine} {image : List Nibble} {actions : List Action}
    {w w' : ByteMemory} (h : Follows m (.start image :: actions) w w') :
    w'.Shows ((m.act (.start image)).actAll actions).mem := by
  cases h with
  | cons hedits hrest =>
    refine hrest.shows ?_
    rw [mem_act hedits]
    obtain ⟨bytes, -, rfl⟩ := hedits
    exact ByteMemory.shows_clear w m.mem _

/-- **Every executable fits the machine.** Wherever an executable comes from, its image has room in
memory and its cells are digits; bytes that it was made of are these digits, none of them cut. So
loading it, whatever the machine did before, gives a memory with the image and zeros after it. So
does starting over at any time, unless something else has been loaded.

Whatever is asked of the machine after it was loaded, every cell stays below 16. This is said of a
memory that has a byte for each cell, may have held anything before, and is changed as the machine
changes its own, with bytes that need not be digits: it has the cells of the machine, and bytes and
words are read from it as by the machine. -/
theorem load_fits (e : Executable) (h : e.Obtainable) :
    e.image.length ≤ memoryCells ∧ (∀ d ∈ e.image, d.toNat < 16) ∧
    (∀ bytes, Executable.ofBytes bytes = .ok e → bytes = e.image.map Nibble.toByte) ∧
    ∀ m : Machine, (m.load e).mem.Holds e.image ∧
      ∀ requests m', (m.load e).afterAll? requests = some m' →
        ((∀ q ∈ requests, q.loads = false) → m'.reset.mem.Holds e.image) ∧
        ∃ actions, (∀ a ∈ actions, ∃ q ∈ requests, q.Uses a) ∧
          m' = (m.load e).actAll actions ∧
          ∀ w : ByteMemory, (∃ w', Follows m (.start e.image :: actions) w w') ∧
            ∀ w', Follows m (.start e.image :: actions) w w' → ∀ a,
              (w'.get a).toNat < 16 ∧ (w'.get a).toNat = (m'.mem.get a).toNat ∧
                w'.readByte a = m'.mem.readByte a ∧ w'.readWord a = m'.mem.readWord a := by
  refine ⟨h.storable.image, fun d _ => d.isLt, fun _ => Executable.eq_image_of_ofBytes, fun m => ?_⟩
  refine ⟨holds_load m e, fun requests m' hm' => ⟨fun hloads => ?_, ?_⟩⟩
  · have himage : m'.image = e.image := (image_of_requests hloads hm').trans (image_load m e)
    rw [← himage]
    exact holds_reset m'
  · have hreaches : Reaches (fun a => ∃ q ∈ requests, q.Uses a) (m.load e) m' :=
      reaches_of_requests (fun q hq a ha => ⟨q, hq, ha⟩) hm'
    obtain ⟨actions, hactions, rfl⟩ := hreaches.exists_actions
    refine ⟨actions, hactions, rfl, fun w => ⟨exists_follows m _ w, fun w' hw' a => ?_⟩⟩
    have hshows := hw'.shows_start
    exact ⟨hshows.get_lt a, hshows.toNat_get a, hshows.readByte a, hshows.readWord a⟩

/-- A program that stores a byte over its own first cells. They are as before when the machine is
reset. -/
theorem load_fits_overwritten :
    let e : Executable := ⟨[2, 1, 15, 7, 4, 1, 0, 0], none⟩
    e.Obtainable ∧ ∃ m', ((Machine.new .default).load e).afterAll? [.stepIn, .stepIn] = some m' ∧
      m'.mem.get 0 = 15 ∧ m'.mem.get 1 = 7 ∧ m'.reset.mem.get 0 = 2 ∧ m'.reset.mem.get 1 = 1 := by
  intro e
  have hbytes : Executable.ofBytes [2, 1, 15, 7, 4, 1, 0, 0] = .ok e := by decide +kernel
  have hrun : (((Machine.new .default).load e).afterAll? [.stepIn, .stepIn]).any
      (fun m => decide (m.mem.get 0 = 15 ∧ m.mem.get 1 = 7)) = true := by decide +kernel
  obtain ⟨m', hm', hdecide⟩ := (Option.any_eq_true _ _).mp hrun
  obtain ⟨hfirst, hsecond⟩ := of_decide_eq_true hdecide
  obtain ⟨-, -, -, hload⟩ := load_fits e (.image hbytes)
  have hreset := ((hload (Machine.new .default)).2 _ m' hm').1 (by simp [Request.loads])
  exact ⟨.image hbytes, m', hm', hfirst, hsecond, hreset 0, hreset 1⟩

end Machine

end Nic
