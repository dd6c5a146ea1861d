/-
A machine that runs by itself, one instruction at each tick of a clock.

While it runs, it cannot be stepped, reset or loaded by hand. A run ends when it is stopped or when
the status is no longer ok. The start and the end of a run are changes that the observer is told.
-/
import Nic.Machine.Run
import Nic.Text.Decimal

set_option autoImplicit false

namespace Nic

/-- A machine, whether it is running, and the time between ticks in microseconds. -/
structure Computer where
  machine : Machine
  running : Bool
  interval : Nat

namespace Computer

/-- A machine that is not running (`Computer::new`). -/
def new (m : Machine) : Computer := ⟨m, false, m.flags.interval.microseconds⟩

/-! ## Running -/

/-- Starts a run, unless there is one (`Computer::start`). -/
def start (c : Computer) : Computer :=
  if c.running then c else { c with running := true, machine := c.machine.notify .running }

/-- Ends the run, if there is one (`Computer::stop`). -/
def stop (c : Computer) : Computer :=
  if c.running then { c with running := false, machine := c.machine.notify .running } else c

/-- Starts a run or ends it (`Computer::toggle`). -/
def toggle (c : Computer) : Computer :=
  if c.running then c.stop else c.start

/-- One tick of the clock (one turn of the loop that `Computer::start` spawns): an instruction of
the run, which may end it. -/
def tick (c : Computer) : Computer :=
  if c.running then
    match c.machine.stepIn with
    | (.ok .ok, machine) => { c with machine }
    | (_, machine) => { c with machine }.stop
  else c

/-- Lets the clock tick until the run ends, but not more than `fuel` times. -/
def waitForEnd : Nat → Computer → Option Computer
  | 0, _ => none
  | fuel + 1, c => if c.running then waitForEnd fuel c.tick else some c

/-- Starts a run and waits for its end, if there is one. -/
def runToEnd (c : Computer) : Option Computer :=
  waitForEnd Machine.configurations c.start

/-! ## The clock -/

/-- Changes the time between ticks (`Computer::set_interval`). -/
def setInterval (c : Computer) (d : Duration) : Computer :=
  { c with interval := d.microseconds }

/-- The digits after the point of a number of thousandths, millionths and so on, without zeros at
the end; nothing if there are none. -/
def fraction (places n : Nat) : List Char :=
  let digits := Text.decimalDigits n
  let padded := List.replicate (places - digits.length) '0' ++ digits
  match (padded.reverse.dropWhile (· == '0')).reverse with
  | [] => []
  | shown => '.' :: shown

/-- A time in microseconds, in the largest unit of which it has at least one. -/
def intervalText (us : Nat) : String :=
  if 1000000 ≤ us then
    Text.decimal (us / 1000000) ++ String.ofList (fraction 6 (us % 1000000)) ++ "s"
  else if 1000 ≤ us then
    Text.decimal (us / 1000) ++ String.ofList (fraction 3 (us % 1000)) ++ "ms"
  else Text.decimal us ++ "µs"

/-- A summary (`Computer::fmt`). -/
def summary (c : Computer) : String :=
  "Computer \x7b running: " ++ (if c.running then "true" else "false") ++
    ", interval: " ++ intervalText c.interval ++ ", .. \x7d"

/-! ## Requests by hand -/

/-- Does something with the machine if it is not running (`Computer::stopped_machine`). -/
def byHand {α : Type} (c : Computer) (f : Machine → Except MachineFault α × Machine) :
    Except MachineFault α × Computer :=
  if c.running then (.error .running, c)
  else
    let (result, machine) := f c.machine
    (result, { c with machine })

/-- The next phase (`Computer::step`). -/
def step (c : Computer) : Except MachineFault Status × Computer := c.byHand Machine.step

/-- Completes one instruction (`Computer::step_in`). -/
def stepIn (c : Computer) : Except MachineFault Status × Computer := c.byHand Machine.stepIn

/-- Starts over (`Computer::reset`). -/
def reset (c : Computer) : Except MachineFault Unit × Computer :=
  c.byHand fun m => (.ok (), m.reset)

/-- Takes the image of an executable, and starts over (`Computer::load`). -/
def load (c : Computer) (e : Executable) : Except MachineFault Unit × Computer :=
  c.byHand fun m => (.ok (), m.load e)

/-- Does something with the machine, also while it is running (`Computer::with_machine`). -/
def withMachine {α : Type} (c : Computer) (f : Machine → α × Machine) : α × Computer :=
  let (result, machine) := f c.machine
  (result, { c with machine })

end Computer

end Nic
