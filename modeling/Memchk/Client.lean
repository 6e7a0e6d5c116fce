import Memchk.Library.Getopt
import Memchk.Settings

/-!
# The client

`main` of `memchk_client.c`, which sends the signals of the commands, and the table of
`memchk_signal.c` that says what each signal makes the target do. The option string has an argument
for every command but `-d`, which it does not have at all. A command without a pid is therefore
found by the error of `getopt`, and only where nothing stands behind it; and a pid behind `-d` is
passed over.

## The target

`memchk_signal.c` installs a handler for each of the signals it uses, and the switch of the working
thread calls the function of the command. Both tables are here, and composed they say what a signal
does.

## The client

`main` is a loop over the options that `getopt` finds, with a switch over the letter. The model
takes the answers of `getopt`, which is `Getopt` of the library with the option string of the
source, and gives the list of what the client does: signals sent, settings written, usage printed.
The pid of a command is its argument if it has one, and otherwise the one in the settings file.

## Main result

`clientMain_reaches_iff` takes a list of commands as a user would write it, with or without a pid,
and says exactly for which lists the target of each command executes that command and nothing else.
-/

namespace Memchk

/-- `SIGRTMIN`. -/
abbrev sigrtmin : ℕ := 34

/-! ### The target -/

/-- What the commands run in the target. -/
inductive TargetFunction
  | getStatus
  | mcPrintAllMemblk
  | mcPrintAllMemblkPerCallstack
  | mcCheckAllMemblk
  | mcCreateSnapshot
  | mcCompareWithSnapshot
  | mcCompareWithSnapshotPerCallstack
  | mcDestroySnapshot
  | mcPrintHistogramAllocMemblk
  | mcGetVirtualMemoryStatus
deriving DecidableEq

/-- The signal handlers. -/
inductive SignalHandler
  | getStatus
  | getVirtualMemoryStatus
  | getAllMemblk
  | getAllMemblkPerCallstack
  | checkAllMemblk
  | createSnapshot
  | compareWithSnapshot
  | compareWithSnapshotPerCallstack
  | destroySnapshot
  | getHistogramMemblk
deriving DecidableEq

/-- The value of the enumeration that a handler calls `notify` with; `get_status` does not call
it. -/
def SignalHandler.notify : SignalHandler → Option ℕ
  | getStatus => none
  | getAllMemblk => some 1
  | getAllMemblkPerCallstack => some 2
  | checkAllMemblk => some 3
  | createSnapshot => some 4
  | compareWithSnapshot => some 5
  | compareWithSnapshotPerCallstack => some 6
  | destroySnapshot => some 7
  | getHistogramMemblk => some 8
  | getVirtualMemoryStatus => some 9

/-- `switch (__cmd)` in `work_thread`. -/
def workThreadSwitch : ℕ → Option TargetFunction
  | 1 => some .mcPrintAllMemblk
  | 2 => some .mcPrintAllMemblkPerCallstack
  | 3 => some .mcCheckAllMemblk
  | 4 => some .mcCreateSnapshot
  | 5 => some .mcCompareWithSnapshot
  | 6 => some .mcCompareWithSnapshotPerCallstack
  | 7 => some .mcDestroySnapshot
  | 8 => some .mcPrintHistogramAllocMemblk
  | 9 => some .mcGetVirtualMemoryStatus
  | _ => none

/-- The handlers that `mc_signal_init` installs. -/
def mcSignalInit : List (ℕ × SignalHandler) :=
  [(sigrtmin, .getStatus), (sigrtmin + 1, .getAllMemblk),
    (sigrtmin + 2, .getAllMemblkPerCallstack), (sigrtmin + 3, .checkAllMemblk),
    (sigrtmin + 4, .createSnapshot), (sigrtmin + 5, .compareWithSnapshot),
    (sigrtmin + 6, .compareWithSnapshotPerCallstack), (sigrtmin + 7, .destroySnapshot),
    (sigrtmin + 8, .getHistogramMemblk), (sigrtmin + 9, .getVirtualMemoryStatus)]

/-- What a signal makes the target run. -/
def targetRuns (sig : ℕ) : Option TargetFunction := do
  let handler ← mcSignalInit.lookup sig
  match handler.notify with
  | none => return .getStatus
  | some cmd => workThreadSwitch cmd

/-! ### The client -/

/-- What the client does. -/
inductive ClientEvent
  | kill (sig : ℕ) (pid : ℤ)
  | setSettings (pid : ℤ)
  | autoUpdateSettings
  | printUsage
  | removeAllLogs
  | printTarget (pid : ℤ)
deriving DecidableEq

namespace Client

/-- `send_signal`. -/
def sendSignal (pid : ℤ) (sig : ℕ) : ClientEvent :=
  .kill sig pid

def getStatus (pid : ℤ) : ClientEvent :=
  sendSignal pid sigrtmin

def getAllMemblk (pid : ℤ) : ClientEvent :=
  sendSignal pid (sigrtmin + 1)

def getAllMemblkPerCallstack (pid : ℤ) : ClientEvent :=
  sendSignal pid (sigrtmin + 2)

def checkAllMemblk (pid : ℤ) : ClientEvent :=
  sendSignal pid (sigrtmin + 3)

def createSnapshot (pid : ℤ) : ClientEvent :=
  sendSignal pid (sigrtmin + 4)

def compareWithSnapshot (pid : ℤ) : ClientEvent :=
  sendSignal pid (sigrtmin + 5)

def compareWithSnapshotPerCallstack (pid : ℤ) : ClientEvent :=
  sendSignal pid (sigrtmin + 6)

def destroySnapshot (pid : ℤ) : ClientEvent :=
  sendSignal pid (sigrtmin + 7)

def getHistogramMemblk (pid : ℤ) : ClientEvent :=
  sendSignal pid (sigrtmin + 8)

def getVirtualMemoryStatus (pid : ℤ) : ClientEvent :=
  sendSignal pid (sigrtmin + 9)

end Client

/-- `optstring`. -/
def optstring : List Char :=
  ['a', ':', 'A', ':', 'b', ':', 's', ':', 'c', ':', 'C', ':', 'p', ':', 'm', ':', 'M', ':', 'u',
    'h', 'l', 'g', ':']

/-- The cases of `switch (c)` that convert `optarg`. -/
def switchOption : Char → Option (ℤ → ClientEvent)
  | 'a' => some Client.getAllMemblk
  | 'A' => some Client.getAllMemblkPerCallstack
  | 'b' => some Client.checkAllMemblk
  | 's' => some Client.createSnapshot
  | 'c' => some Client.compareWithSnapshot
  | 'C' => some Client.compareWithSnapshotPerCallstack
  | 'd' => some Client.destroySnapshot
  | 'p' => some .setSettings
  | 'm' => some Client.getStatus
  | 'M' => some Client.getVirtualMemoryStatus
  | 'g' => some Client.getHistogramMemblk
  | _ => none

/-- `switch (optopt)`. -/
def switchOptopt : Char → Option (ℤ → ClientEvent)
  | 'a' => some Client.getAllMemblk
  | 'A' => some Client.getAllMemblkPerCallstack
  | 'b' => some Client.checkAllMemblk
  | 's' => some Client.createSnapshot
  | 'c' => some Client.compareWithSnapshot
  | 'C' => some Client.compareWithSnapshotPerCallstack
  | 'd' => some Client.destroySnapshot
  | 'm' => some Client.getStatus
  | 'M' => some Client.getVirtualMemoryStatus
  | 'g' => some Client.getHistogramMemblk
  | _ => none

/-- The body of the loop of `main`: what is done for the result `c` of `getopt`. `pid` is what
`get_settings` returns. A null `optarg` is a fault. -/
def mainSwitch (pid : ℤ) (c : Char) (g : Getopt) : Option (List ClientEvent) :=
  match switchOption c with
  | some send => do
    let arg ← g.optarg
    return [send (← atoi (arg ++ ['\x00']))]
  | none =>
    if c = 'u' then some [.autoUpdateSettings]
    else if c = 'h' then some [.printUsage]
    else if c = 'l' then some [.removeAllLogs]
    else if pid = -1 then some []
    else some (((switchOptopt g.optopt).map (· pid)).toList)

/-- The loop of `main`. `settings` is what `get_settings` returns after what has been done so
far. -/
def mainLoop (settings : List ClientEvent → ℤ) :
    ℕ → Getopt → List ClientEvent → Option (List ClientEvent)
  | 0, _, _ => none
  | rounds + 1, g, events =>
    match getopt optstring g with
    | none => some events
    | some (c, g) => do
      let new ← mainSwitch (settings events) c g
      mainLoop settings rounds g (events ++ new)

/-- `main`, on the arguments behind the name of the program. Every round of the loop uses up a
character. -/
def clientMain (settings : List ClientEvent → ℤ) (argv : List (List Char)) :
    Option (List ClientEvent) :=
  if argv = [] then some [.printTarget (settings [])]
  else mainLoop settings ((argv.map List.length).sum + 1) ⟨[], argv, none, '?'⟩ []

/-- The signals among what the client does. -/
def signals (events : List ClientEvent) : List (ℕ × ℤ) :=
  events.filterMap fun
    | .kill sig pid => some (sig, pid)
    | _ => none

/-! ### Commands on the command line -/

/-- The options that are commands. -/
inductive CommandOption
  | a | A | b | c | C | d | g | m | M | s
deriving DecidableEq

namespace CommandOption

def letter : CommandOption → Char
  | a => 'a'
  | A => 'A'
  | b => 'b'
  | c => 'c'
  | C => 'C'
  | d => 'd'
  | g => 'g'
  | m => 'm'
  | M => 'M'
  | s => 's'

/-- The command, as the usage text describes it. -/
def command : CommandOption → TargetFunction
  | a => .mcPrintAllMemblk
  | A => .mcPrintAllMemblkPerCallstack
  | b => .mcCheckAllMemblk
  | c => .mcCompareWithSnapshot
  | C => .mcCompareWithSnapshotPerCallstack
  | d => .mcDestroySnapshot
  | g => .mcPrintHistogramAllocMemblk
  | m => .getStatus
  | M => .mcGetVirtualMemoryStatus
  | s => .mcCreateSnapshot

/-- The signal that the client sends for an option. -/
def signal : CommandOption → ℕ
  | a => sigrtmin + 1
  | A => sigrtmin + 2
  | b => sigrtmin + 3
  | c => sigrtmin + 5
  | C => sigrtmin + 6
  | d => sigrtmin + 7
  | g => sigrtmin + 8
  | m => sigrtmin
  | M => sigrtmin + 9
  | s => sigrtmin + 4

variable (x : CommandOption)

/-- Both switches send the signal whose handler runs the command. -/
theorem targetRuns_signal : targetRuns x.signal = some x.command := by
  cases x <;> rfl

theorem switchOption_letter : switchOption x.letter = some (.kill x.signal) := by
  cases x <;> rfl

theorem switchOptopt_letter : switchOptopt x.letter = some (.kill x.signal) := by
  cases x <;> rfl

theorem letter_ne : x.letter ≠ '-' := by
  cases x <;> decide

theorem takesArgument_letter :
    Getopt.takesArgument optstring x.letter = if x = d then none else some true := by
  cases x <;> decide

/-- An option that is taken for an argument. -/
theorem atoi_letter : atoi ['-', x.letter, '\x00'] = some 0 := by
  cases x <;> decide +kernel

end CommandOption

/-- A command with its pid, if it has one. -/
structure CommandItem where
  option : CommandOption
  pid : Option ℤ

/-- The elements of the command line for a command. -/
def CommandItem.args (x : CommandItem) : List (List Char) :=
  ['-', x.option.letter] :: (x.pid.map printInt).toList

/-- The pid is positive and a pid. -/
def CommandItem.Ok (x : CommandItem) : Prop :=
  ∀ p, x.pid = some p → 0 < p ∧ p < 2147483648

/-- A signal is the one for a command: it goes to the process that is meant, which runs the
command. -/
def CommandItem.Reaches (target : ℤ) (x : CommandItem) (k : ℕ × ℤ) : Prop :=
  targetRuns k.1 = some x.option.command ∧ k.2 = x.pid.getD target

/-- The commands that `main` takes as they are meant: behind `-d` there is no pid other than the
one in the settings, and of the others only the last one may go without a pid. -/
def Understood (target : ℤ) : List CommandItem → Prop
  | [] => True
  | x :: items =>
    (if x.option = .d then ∀ p, x.pid = some p → p = target else x.pid = none → items = []) ∧
      Understood target items

/-! ### What `main` makes of them -/

/-- The signals that `main` sends for the commands. An option without a pid that is not the last
one takes the next option for its pid, and the number in it is `0`. -/
def sent (target : ℤ) : List CommandItem → List ClientEvent
  | [] => []
  | x :: items =>
    if x.option = .d then .kill x.option.signal target :: sent target items
    else
      match x.pid, items with
      | some p, items => .kill x.option.signal p :: sent target items
      | none, [] => [.kill x.option.signal target]
      | none, _ :: items => .kill x.option.signal 0 :: sent target items

section Main

variable {settings : List ClientEvent → ℤ} {target p : ℤ} {items : List CommandItem}
  {x y : CommandItem} {events : List ClientEvent} {optarg : Option (List Char)} {optopt : Char}
  {argv : List (List Char)} {rounds : ℕ}

theorem atoi_printInt (hp : 0 < p ∧ p < 2147483648) : atoi (printInt p ++ ['\x00']) = some p :=
  (atoi_printInt_append (by omega) (by simp)).2 (.inl rfl)

/-- An option with an argument that is a number. -/
theorem mainLoop_argument {z : ℤ} {arg : List Char} {o : CommandOption} (hd : o ≠ .d)
    (hz : atoi (arg ++ ['\x00']) = some z) :
    mainLoop settings (rounds + 1) ⟨[], ['-', o.letter] :: arg :: argv, optarg, optopt⟩ events =
      mainLoop settings rounds ⟨[], argv, some arg, optopt⟩ (events ++ [.kill o.signal z]) := by
  have htakes := o.takesArgument_letter
  rw [if_neg hd] at htakes
  rw [mainLoop, Getopt.getopt_argument o.letter_ne htakes]
  simp only [mainSwitch, o.switchOption_letter, hz, Option.bind_eq_bind, Option.bind_some,
    Option.pure_def]

/-- An option that `getopt` reports as an error. -/
theorem mainLoop_error {g : Getopt} {o : CommandOption} (htarget : settings events = target)
    (hne : target ≠ -1)
    (hget : getopt optstring g = some ('?', ⟨[], argv, none, o.letter⟩)) :
    mainLoop settings (rounds + 1) g events =
      mainLoop settings rounds ⟨[], argv, none, o.letter⟩ (events ++ [.kill o.signal target]) := by
  rw [mainLoop, hget]
  simp only [mainSwitch, htarget, hne, o.switchOptopt_letter, Option.map_some, Option.toList_some]
  rfl

/-- A pid that no option takes is passed over. -/
theorem mainLoop_skip (hx : x.Ok) (hrounds : 0 < rounds) :
    mainLoop settings rounds ⟨[], (x.pid.map printInt).toList ++ argv, optarg, optopt⟩ events =
      mainLoop settings rounds ⟨[], argv, optarg, optopt⟩ events := by
  obtain ⟨k, rfl⟩ := Nat.exists_eq_add_one.2 hrounds
  cases hpid : x.pid with
  | none => rfl
  | some p =>
    rw [Option.map_some, Option.toList_some, List.singleton_append, mainLoop, mainLoop,
      Getopt.getopt_skip (head?_printInt_ne (hx p hpid).1.le)]

/-- The loop of `main` on commands. -/
theorem mainLoop_eq (htarget : ∀ es, settings es = target) (hne : target ≠ -1)
    (hok : ∀ x ∈ items, x.Ok) (hrounds : items.length < rounds) :
    mainLoop settings rounds ⟨[], items.flatMap CommandItem.args, optarg, optopt⟩ events =
      some (events ++ sent target items) := by
  fun_induction sent target items generalizing rounds optarg optopt events with
  | case1 =>
    obtain ⟨k, rfl⟩ := Nat.exists_eq_add_one.2 hrounds
    rw [List.append_nil]
    rfl
  | case2 x items hd ih =>
    -- `-d` is an error, and its pid is passed over
    rw [List.length_cons] at hrounds
    obtain ⟨k, rfl⟩ := Nat.exists_eq_add_one.2 (Nat.zero_lt_of_lt hrounds)
    have htakes := x.option.takesArgument_letter
    rw [if_pos hd] at htakes
    rw [List.flatMap_cons, CommandItem.args, List.cons_append,
      mainLoop_error (htarget events) hne (Getopt.getopt_unknown x.option.letter_ne htakes),
      mainLoop_skip (hok x List.mem_cons_self) (by omega),
      ih (fun y hy ↦ hok y (List.mem_cons_of_mem _ hy)) (by omega), List.append_assoc]
    rfl
  | case3 x hd p items hpid ih =>
    rw [List.length_cons] at hrounds
    obtain ⟨k, rfl⟩ := Nat.exists_eq_add_one.2 (Nat.zero_lt_of_lt hrounds)
    have hp := hok x List.mem_cons_self p hpid
    rw [List.flatMap_cons, CommandItem.args, hpid, Option.map_some, Option.toList_some,
      List.cons_append, List.singleton_append, mainLoop_argument hd (atoi_printInt hp),
      ih (fun y hy ↦ hok y (List.mem_cons_of_mem _ hy)) (by omega), List.append_assoc]
    rfl
  | case4 x hd hpid =>
    -- the last option has no argument
    obtain ⟨k, rfl⟩ := Nat.exists_eq_add_one.2 (Nat.zero_lt_of_lt hrounds)
    rw [List.length_singleton] at hrounds
    obtain ⟨j, rfl⟩ := Nat.exists_eq_add_one.2 (by omega : 0 < k)
    have htakes := x.option.takesArgument_letter
    rw [if_neg hd] at htakes
    rw [List.flatMap_cons, CommandItem.args, hpid, Option.map_none, Option.toList_none,
      List.flatMap_nil, List.append_nil,
      mainLoop_error (htarget events) hne (Getopt.getopt_missing x.option.letter_ne htakes)]
    rfl
  | case5 x hd y items hpid ih =>
    -- the next option is taken for the pid, and what stands behind it is passed over
    rw [List.length_cons, List.length_cons] at hrounds
    obtain ⟨k, rfl⟩ := Nat.exists_eq_add_one.2 (Nat.zero_lt_of_lt hrounds)
    have hy : y ∈ x :: y :: items := List.mem_cons_of_mem _ List.mem_cons_self
    rw [List.flatMap_cons, List.flatMap_cons, CommandItem.args, CommandItem.args, hpid,
      Option.map_none, Option.toList_none, List.singleton_append, List.cons_append,
      mainLoop_argument hd y.option.atoi_letter, mainLoop_skip (hok y hy) (by omega),
      ih (fun z hz ↦ hok z (List.mem_cons_of_mem _ (List.mem_cons_of_mem _ hz))) (by omega),
      List.append_assoc]
    rfl

/-- At most one signal for each command. -/
theorem length_signals_sent_le (target : ℤ) (items : List CommandItem) :
    (signals (sent target items)).length ≤ items.length := by
  fun_induction sent target items with
  | case1 => exact le_rfl
  | case2 x items hd ih => exact Nat.succ_le_succ ih
  | case3 x hd p items hpid ih => exact Nat.succ_le_succ ih
  | case4 x hd hpid => exact le_rfl
  | case5 x hd y items hpid ih => exact (Nat.succ_le_succ ih).trans (Nat.le_succ _)

/-- Every command gets its signal exactly if it is taken as it is meant. -/
theorem forall₂_reaches_iff (target : ℤ) (items : List CommandItem) :
    List.Forall₂ (CommandItem.Reaches target) items (signals (sent target items)) ↔
      Understood target items := by
  fun_induction sent target items with
  | case1 => exact iff_of_true .nil trivial
  | case2 x items hd ih =>
    rw [Understood, if_pos hd, ← ih]
    show List.Forall₂ _ (x :: items) ((x.option.signal, target) :: signals (sent target items)) ↔ _
    rw [List.forall₂_cons]
    refine and_congr ⟨fun h p hp ↦ ?_, fun h ↦ ⟨x.option.targetRuns_signal, ?_⟩⟩ Iff.rfl
    · have hpid : target = x.pid.getD target := h.2
      rw [hp] at hpid
      exact hpid.symm
    · cases hpid : x.pid with
      | none => rfl
      | some p => exact (h p hpid).symm
  | case3 x hd p items hpid ih =>
    rw [Understood, if_neg hd, ← ih]
    show List.Forall₂ _ (x :: items) ((x.option.signal, p) :: signals (sent target items)) ↔ _
    rw [List.forall₂_cons]
    refine and_congr (iff_of_true ⟨x.option.targetRuns_signal, ?_⟩ fun hnone ↦ ?_) Iff.rfl
    · rw [hpid]
      rfl
    · rw [hpid] at hnone
      exact absurd hnone (by simp)
  | case4 x hd hpid =>
    rw [Understood, if_neg hd]
    refine iff_of_true (.cons ⟨x.option.targetRuns_signal, ?_⟩ .nil) ⟨fun _ ↦ rfl, trivial⟩
    rw [hpid]
    rfl
  | case5 x hd y items hpid ih =>
    rw [Understood, if_neg hd]
    refine iff_of_false (fun h ↦ ?_) fun h ↦ absurd (h.1 hpid) (by simp)
    -- one signal too few
    have hlength := h.length_eq
    have hle := length_signals_sent_le target items
    rw [List.length_cons, List.length_cons] at hlength
    have hcons : (signals (.kill x.option.signal 0 :: sent target items)).length =
        (signals (sent target items)).length + 1 := rfl
    omega

/-- `main` returns, and for each command, in order, it sends one signal, to the process that is
meant and with the number that makes it run the command, if and only if the commands are taken as
they are meant. -/
theorem clientMain_reaches_iff (htarget : ∀ es, settings es = target) (hne : target ≠ -1)
    (hok : ∀ x ∈ items, x.Ok) :
    ∃ events, clientMain settings (items.flatMap CommandItem.args) = some events ∧
      (List.Forall₂ (CommandItem.Reaches target) items (signals events) ↔
        Understood target items) := by
  cases items with
  | nil =>
    exact ⟨_, rfl, iff_of_true .nil trivial⟩
  | cons x items =>
    have hargs : (x :: items).flatMap CommandItem.args ≠ [] := by
      rw [List.flatMap_cons, CommandItem.args]
      simp
    have hrounds : ∀ l : List CommandItem,
        l.length ≤ ((l.flatMap CommandItem.args).map List.length).sum := by
      intro l
      induction l with
      | nil => exact le_rfl
      | cons y l ih =>
        rw [List.flatMap_cons, List.map_append, List.sum_append, CommandItem.args, List.map_cons,
          List.sum_cons, List.length_cons]
        simp only [List.length_cons, List.length_nil]
        omega
    refine ⟨sent target (x :: items), ?_, forall₂_reaches_iff target (x :: items)⟩
    rw [clientMain, if_neg hargs,
      mainLoop_eq htarget hne hok (Nat.lt_succ_of_le (hrounds (x :: items))), List.nil_append]

/-- `-a 12 -d -m`. -/
theorem clientMain_reaches_iff_three : ∃ events,
    clientMain (fun _ ↦ 77) ([⟨.a, some 12⟩, ⟨.d, none⟩, ⟨.m, none⟩].flatMap CommandItem.args) =
      some events ∧
    List.Forall₂ (CommandItem.Reaches 77) [⟨.a, some 12⟩, ⟨.d, none⟩, ⟨.m, none⟩]
      (signals events) := by
  obtain ⟨events, hrun, hiff⟩ := @clientMain_reaches_iff (fun _ ↦ 77) 77
    [⟨.a, some 12⟩, ⟨.d, none⟩, ⟨.m, none⟩] (fun _ ↦ rfl) (by decide) (by simp [CommandItem.Ok])
  exact ⟨events, hrun, hiff.2 (by simp [Understood])⟩

/-- `-d 12` goes to the process of the settings, and `-a -b` sends one signal, to process `0`. -/
theorem not_clientMain_reaches :
    (clientMain (fun _ ↦ 77) ([⟨.d, some 12⟩].flatMap CommandItem.args) = some [.kill 41 77] ∧
      ¬List.Forall₂ (CommandItem.Reaches 77) [⟨.d, some 12⟩] (signals [.kill 41 77])) ∧
    clientMain (fun _ ↦ 77) ([⟨.a, none⟩, ⟨.b, none⟩].flatMap CommandItem.args) =
        some [.kill 35 0] ∧
      ¬List.Forall₂ (CommandItem.Reaches 77) [⟨.a, none⟩, ⟨.b, none⟩] (signals [.kill 35 0]) := by
  refine ⟨⟨by decide +kernel, fun h ↦ ?_⟩, by decide +kernel, fun h ↦ ?_⟩
  · have hpid : (77 : ℤ) = 12 := (List.forall₂_cons.1 h).1.2
    exact absurd hpid (by decide)
  · exact absurd h.length_eq (by decide)

end Main

end Memchk
