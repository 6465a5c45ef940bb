import RaceControl.Node

namespace RaceControl.Indicator

open Machine Esp Globals Node

def espFail : EspErr := -1

/-- The notifications that the kernel keeps for a task: what giving one does, what
a wait leaves behind when it returns, and what becomes of them during a delay. -/
structure TaskNotify where
  Notification : Type
  created : Notification
  xTaskNotifyGive : Notification → Notification
  xTaskNotifyWait : Notification → Option Notification
  vTaskDelay : Notification → Notification

/-- What the kernel documents of them. A new task has none, a wait returns once one
was given and takes all of them, and a delay neither gives nor takes one. -/
structure TaskNotify.Documented (k : TaskNotify) : Prop where
  created_waits : k.xTaskNotifyWait k.created = none
  given_returns : ∀ n, (k.xTaskNotifyWait (k.xTaskNotifyGive n)).isSome = true
  returned_waits : ∀ n n', k.xTaskNotifyWait n = some n' → k.xTaskNotifyWait n' = none
  delay_keeps : ∀ n, (k.xTaskNotifyWait (k.vTaskDelay n)).isSome = (k.xTaskNotifyWait n).isSome

/-- A kernel that counts what is given. -/
def counting : TaskNotify where
  Notification := UInt32 × Bool
  created := (0, false)
  xTaskNotifyGive n := (n.1 + 1, true)
  xTaskNotifyWait n := if n.2 then some (0, false) else none
  vTaskDelay n := n

theorem counting_documented : counting.Documented where
  created_waits := rfl
  given_returns _ := rfl
  returned_waits := by
    rintro ⟨value, pending⟩ n' h
    cases pending with
    | true =>
        cases h
        rfl
    | false => cases h
  delay_keeps _ := rfl

/-- Where rx_led_indicator_task is: at its wait, or in one of its two delays. -/
inductive LedTask
  | waiting | lit | dark
  deriving DecidableEq

/-- The task is there, with its notifications, once rx_led_handle is not null. -/
structure LedState (k : TaskNotify) where
  isRxLedStarted : Bool
  task : Option (LedTask × k.Notification)
  level : Bool

/-- An input lets the task go on when what it waits for has come, or says what
another task calls. -/
inductive LedInput
  | start (created : Bool)
  | notify
  | run
  deriving DecidableEq

inductive LedCall
  | createTask (created : Bool)
  | startReturned (ret : EspErr)
  | notifyReturned (ret : EspErr)
  | setLevel (level : Bool)
  deriving DecidableEq

variable {k : TaskNotify}

def ledInit : LedState k := ⟨false, none, false⟩

def startRxLed (created : Bool) (s : LedState k) : LedState k × List LedCall :=
  if s.isRxLedStarted then (s, [.startReturned espOk])
  else
    ({ s with isRxLedStarted := true, task := if created then some (.waiting, k.created) else none },
      [.createTask created, .startReturned espOk])

def notifyRxLed (s : LedState k) : LedState k × List LedCall :=
  match s.task with
  | none => (s, [.notifyReturned espFail])
  | some (pc, n) => ({ s with task := some (pc, k.xTaskNotifyGive n) }, [.notifyReturned espOk])

def rxLedIndicatorTask (s : LedState k) : LedState k × List LedCall :=
  match s.task with
  | none => (s, [])
  | some (.waiting, n) =>
      match k.xTaskNotifyWait n with
      | none => (s, [])
      | some n => ({ s with task := some (.lit, n), level := true }, [.setLevel true])
  | some (.lit, n) => ({ s with task := some (.dark, k.vTaskDelay n), level := false }, [.setLevel false])
  | some (.dark, n) => ({ s with task := some (.waiting, k.vTaskDelay n) }, [])

def ledStep (s : LedState k) : LedInput → LedState k × List LedCall
  | .start created => startRxLed created s
  | .notify => notifyRxLed s
  | .run => rxLedIndicatorTask s

/-- A wait of the task would return. -/
def LedState.pending (s : LedState k) : Bool :=
  match s.task with
  | none => false
  | some (_, n) => (k.xTaskNotifyWait n).isSome

theorem pending_none {s : LedState k} (h : s.task = none) : s.pending = false := by
  rw [LedState.pending, h]

theorem pending_some {s : LedState k} {pc : LedTask} {n : k.Notification} (h : s.task = some (pc, n)) :
    s.pending = (k.xTaskNotifyWait n).isSome := by
  rw [LedState.pending, h]

/-- The task is only there after a start, and the LED is on exactly in its first
delay. -/
structure LedSound (s : LedState k) : Prop where
  started : s.task.isSome = true → s.isRxLedStarted = true
  level : s.level = true ↔ s.task.map Prod.fst = some .lit

theorem ledSound_init : LedSound (ledInit (k := k)) := ⟨nofun, ⟨nofun, nofun⟩⟩

theorem task_of_fresh {s : LedState k} (h : LedSound s) (hfresh : ¬ s.isRxLedStarted = true) : s.task = none := by
  rw [← Option.not_isSome_iff_eq_none]
  exact fun hsome => hfresh (h.started hsome)

theorem ledStep_sound (s : LedState k) (i : LedInput) (h : LedSound s) : LedSound (ledStep s i).1 := by
  cases i with
  | start created =>
      rw [ledStep, startRxLed]
      split
      · exact h
      · rename_i hfresh
        have hlevel := h.level
        rw [task_of_fresh h hfresh] at hlevel
        refine ⟨fun _ => rfl, ?_⟩
        cases created <;> simpa using hlevel
  | notify =>
      rw [ledStep, notifyRxLed]
      split
      · exact h
      · rename_i pc n ht
        have hlevel := h.level
        rw [ht] at hlevel
        exact ⟨fun _ => h.started (by rw [ht]; rfl), hlevel⟩
  | run =>
      rw [ledStep, rxLedIndicatorTask]
      split
      · exact h
      · rename_i n ht
        have hstarted : s.isRxLedStarted = true := h.started (by rw [ht]; rfl)
        split
        · exact h
        · exact ⟨fun _ => hstarted, ⟨fun _ => rfl, fun _ => rfl⟩⟩
      · rename_i n ht
        exact ⟨fun _ => h.started (by rw [ht]; rfl), ⟨nofun, nofun⟩⟩
      · rename_i n ht
        have hlevel := h.level
        rw [ht] at hlevel
        refine ⟨fun _ => h.started (by rw [ht]; rfl), ⟨fun hl => ?_, nofun⟩⟩
        cases hlevel.mp hl

theorem final_sound (run : List LedInput) : LedSound (final ledStep (ledInit (k := k)) run) :=
  final_invariant ledStep ledStep_sound ledSound_init run

section Account

end Account

section Board

/-- An input of the board goes to its node, to app_main's start of the LED task, or
to the LED task. -/
inductive BoardInput
  | node (i : NodeInput)
  | startLed (created : Bool)
  | ledRun

/-- The receive task notifies the LED task of all that esp_mesh_recv returns, before
it looks at it. -/
def notifies (s : NodeState) (i : NodeInput) : Bool :=
  match i.event with
  | .received _ => s.rx.isSome
  | _ => false

def boardStep (config : NodeConfig) (s : NodeState × LedState k) :
    BoardInput → (NodeState × LedState k) × List (LedCall ⊕ Call)
  | .node i =>
      let (led, lights) := if notifies s.1 i then notifyRxLed s.2 else (s.2, [])
      let (node, calls) := nodeStep config s.1 i
      ((node, led), lights.map .inl ++ calls.map .inr)
  | .startLed created =>
      let (led, lights) := startRxLed created s.2
      ((s.1, led), lights.map .inl)
  | .ledRun =>
      let (led, lights) := rxLedIndicatorTask s.2
      ((s.1, led), lights.map .inl)

def BoardInput.node? : BoardInput → Option NodeInput
  | .node i => some i
  | _ => none

def BoardInput.led (s : NodeState) : BoardInput → List LedInput
  | .node i => if notifies s i then [.notify] else []
  | .startLed created => [.start created]
  | .ledRun => [.run]

/-- The inputs of the LED task in a run of the board. -/
def ledInputs (config : NodeConfig) : NodeState → List BoardInput → List LedInput
  | _, [] => []
  | s, i :: run => i.led s ++ ledInputs config (final (nodeStep config) s i.node?.toList) run

theorem boardStep_node (config : NodeConfig) (s : NodeState × LedState k) (i : BoardInput) :
    (boardStep config s i).1.1 = final (nodeStep config) s.1 i.node?.toList ∧
      (boardStep config s i).2.filterMap Sum.getRight? = trace (nodeStep config) s.1 i.node?.toList := by
  have hnone : ∀ calls : List LedCall, (calls.map (Sum.inl (β := Call))).filterMap Sum.getRight? = [] := by
    intro calls
    simp [List.filterMap_map]
  cases i with
  | node i =>
      refine ⟨rfl, ?_⟩
      have hall : ∀ calls : List Call, (calls.map (Sum.inr (α := LedCall))).filterMap Sum.getRight? = calls := by
        intro calls
        rw [List.filterMap_map]
        exact List.filterMap_some
      rw [boardStep, List.filterMap_append, hnone, hall]
      simp [BoardInput.node?]
  | startLed created => exact ⟨rfl, hnone _⟩
  | ledRun => exact ⟨rfl, hnone _⟩

theorem boardStep_led (config : NodeConfig) (s : NodeState × LedState k) (i : BoardInput) :
    (boardStep config s i).1.2 = final ledStep s.2 (i.led s.1) ∧
      (boardStep config s i).2.filterMap Sum.getLeft? = trace ledStep s.2 (i.led s.1) := by
  have hall : ∀ calls : List LedCall, (calls.map (Sum.inl (β := Call))).filterMap Sum.getLeft? = calls := by
    intro calls
    rw [List.filterMap_map]
    exact List.filterMap_some
  cases i with
  | node i =>
      have hnone : ∀ calls : List Call, (calls.map (Sum.inr (α := LedCall))).filterMap Sum.getLeft? = [] := by
        intro calls
        simp [List.filterMap_map]
      cases hn : notifies s.1 i with
      | true => simp [boardStep, BoardInput.led, hn, hall, hnone, ledStep]
      | false => simp [boardStep, BoardInput.led, hn, hnone]
  | startLed created =>
      refine ⟨rfl, ?_⟩
      rw [boardStep, hall]
      simp [BoardInput.led, ledStep]
  | ledRun =>
      refine ⟨rfl, ?_⟩
      rw [boardStep, hall]
      simp [BoardInput.led, ledStep]

theorem board_node (config : NodeConfig) (s : NodeState × LedState k) (run : List BoardInput) :
    (final (boardStep config) s run).1 = final (nodeStep config) s.1 (run.filterMap BoardInput.node?) ∧
      (trace (boardStep config) s run).filterMap Sum.getRight? =
        trace (nodeStep config) s.1 (run.filterMap BoardInput.node?) := by
  induction run generalizing s with
  | nil => exact ⟨rfl, rfl⟩
  | cons i run ih =>
      obtain ⟨hnode, hcalls⟩ := boardStep_node config s i
      obtain ⟨hfinal, htrace⟩ := ih (boardStep config s i).1
      have hsplit : (i :: run).filterMap BoardInput.node? = i.node?.toList ++ run.filterMap BoardInput.node? := by
        rw [List.filterMap_cons]
        cases i.node? <;> rfl
      rw [hnode] at hfinal htrace
      refine ⟨?_, ?_⟩
      · rw [final_cons, hfinal, hsplit, final_append]
      · rw [trace_cons, List.filterMap_append, hcalls, htrace, hsplit, trace_append]

theorem board_led (config : NodeConfig) (s : NodeState × LedState k) (run : List BoardInput) :
    (final (boardStep config) s run).2 = final ledStep s.2 (ledInputs config s.1 run) ∧
      (trace (boardStep config) s run).filterMap Sum.getLeft? = trace ledStep s.2 (ledInputs config s.1 run) := by
  induction run generalizing s with
  | nil => exact ⟨rfl, rfl⟩
  | cons i run ih =>
      obtain ⟨hled, hlights⟩ := boardStep_led config s i
      obtain ⟨hfinal, htrace⟩ := ih (boardStep config s i).1
      rw [(boardStep_node config s i).1, hled] at hfinal htrace
      refine ⟨?_, ?_⟩
      · rw [final_cons, hfinal, ledInputs, final_append]
      · rw [trace_cons, List.filterMap_append, hlights, htrace, ledInputs, trace_append]

def isLedRun : BoardInput → Bool
  | .ledRun => true
  | _ => false

/-- How many runs the LED task is away from its wait. -/
def toWait (s : LedState k) : Nat :=
  match s.task with
  | some (.lit, _) => 2
  | some (.dark, _) => 1
  | _ => 0

/-- A notification that is pending stays so until the task lights the LED, and each
of its runs brings it nearer to that. -/
theorem pending_step (hk : k.Documented) (s : LedState k) (i : LedInput) (h : LedSound s ∧ s.pending = true) :
    (∃ call ∈ (ledStep s i).2, (call == .setLevel true) = true) ∨
      (LedSound (ledStep s i).1 ∧ (ledStep s i).1.pending = true) ∧
        toWait (ledStep s i).1 + (decide (i = .run)).toNat ≤ toWait s := by
  have hsound := ledStep_sound s i h.1
  cases ht : s.task with
  | none =>
      have hpending := h.2
      rw [pending_none ht] at hpending
      cases hpending
  | some task =>
      obtain ⟨pc, n⟩ := task
      have hwait : (k.xTaskNotifyWait n).isSome = true := by rw [← pending_some ht, h.2]
      cases i with
      | start created =>
          have he : ledStep s (.start created) = (s, [.startReturned espOk]) :=
            if_pos (h.1.started (by rw [ht]; rfl))
          rw [he]
          exact .inr ⟨h, Nat.le_refl _⟩
      | notify =>
          have he : ledStep s .notify =
              ({ s with task := some (pc, k.xTaskNotifyGive n) }, [.notifyReturned espOk]) := by
            simp only [ledStep, notifyRxLed, ht]
          rw [he] at hsound ⊢
          refine .inr ⟨⟨hsound, hk.given_returns n⟩, ?_⟩
          cases pc <;> simp [toWait, ht]
      | run =>
          cases pc with
          | waiting =>
              obtain ⟨n', hn⟩ := Option.isSome_iff_exists.mp hwait
              refine .inl ⟨.setLevel true, ?_, rfl⟩
              simp [ledStep, rxLedIndicatorTask, ht, hn]
          | lit =>
              have he : ledStep s .run =
                  ({ s with task := some (.dark, k.vTaskDelay n), level := false }, [.setLevel false]) := by
                simp only [ledStep, rxLedIndicatorTask, ht]
              rw [he] at hsound ⊢
              refine .inr ⟨⟨hsound, (hk.delay_keeps n).trans hwait⟩, ?_⟩
              simp [toWait, ht]
          | dark =>
              have he : ledStep s .run = ({ s with task := some (.waiting, k.vTaskDelay n) }, []) := by
                simp only [ledStep, rxLedIndicatorTask, ht]
              rw [he] at hsound ⊢
              refine .inr ⟨⟨hsound, (hk.delay_keeps n).trans hwait⟩, ?_⟩
              simp [toWait, ht]

theorem ledInputs_runs (config : NodeConfig) (s : NodeState) (run : List BoardInput) :
    (ledInputs config s run).countP (fun i => decide (i = .run)) = run.countP isLedRun := by
  induction run generalizing s with
  | nil => rfl
  | cons i run ih =>
      have hhead : (i.led s).countP (fun i => decide (i = .run)) = if isLedRun i then 1 else 0 := by
        cases i with
        | node i =>
            rw [BoardInput.led]
            split <;> rfl
        | startLed created => rfl
        | ledRun => rfl
      rw [ledInputs, List.countP_append, ih, List.countP_cons, hhead, Nat.add_comm]

def boardInit (mac : MeshAddr) : NodeState × LedState k := (nodeInit mac, ledInit)

theorem ledSound_board (config : NodeConfig) (mac : MeshAddr) (run : List BoardInput) :
    LedSound (final (boardStep config) (boardInit (k := k) mac) run).2 := by
  rw [(board_led config (boardInit (k := k) mac) run).1]
  exact final_sound _

theorem notify_pending (hk : k.Documented) {s : LedState k} (h : s.task.isSome = true) :
    (ledStep s .notify).1.pending = true := by
  obtain ⟨⟨pc, n⟩, ht⟩ := Option.isSome_iff_exists.mp h
  simp [ledStep, notifyRxLed, ht, LedState.pending, hk.given_returns]

theorem toWait_le (s : LedState k) : toWait s ≤ 2 := by
  rw [toWait]
  split <;> omega

theorem mem_board (config : NodeConfig) (s : NodeState × LedState k) (run : List BoardInput) {call : LedCall}
    (h : call ∈ trace ledStep s.2 (ledInputs config s.1 run)) : .inl call ∈ trace (boardStep config) s run := by
  rw [← (board_led config s run).2] at h
  obtain ⟨o, ho, hleft⟩ := List.mem_filterMap.mp h
  rwa [Sum.getLeft?_eq_some_iff.mp hleft] at ho

/-- Wherever the LED task is when a frame comes, it lights the LED for it within
three of its runs, and the node does what it would do without an LED. -/
theorem received_lights (hk : k.Documented) (config : NodeConfig) (mac : MeshAddr) (before after : List BoardInput)
    (i : NodeInput) (hnotifies : notifies (final (boardStep config) (boardInit (k := k) mac) before).1 i = true)
    (htask : (final (boardStep config) (boardInit (k := k) mac) before).2.task.isSome = true)
    (hruns : 3 ≤ after.countP isLedRun) :
    .inl (.setLevel true) ∈ trace (boardStep config)
        (boardStep config (final (boardStep config) (boardInit (k := k) mac) before) (.node i)).1 after ∧
      (trace (boardStep config) (boardInit (k := k) mac) (before ++ .node i :: after)).filterMap Sum.getRight? =
        trace (nodeStep config) (nodeInit mac) ((before ++ .node i :: after).filterMap BoardInput.node?) := by
  refine ⟨?_, (board_node config (boardInit (k := k) mac) _).2⟩
  have hsound := ledSound_board (k := k) config mac before
  generalize final (boardStep config) (boardInit (k := k) mac) before = s at hnotifies htask hsound ⊢
  have hled : (boardStep config s (.node i)).1.2 = (ledStep s.2 .notify).1 := by
    rw [(boardStep_led config s (.node i)).1, BoardInput.led, hnotifies]
    rfl
  have hrank : toWait (ledStep s.2 .notify).1 <
      (ledInputs config (boardStep config s (.node i)).1.1 after).countP (fun i => decide (i = .run)) := by
    have hle := toWait_le (ledStep s.2 .notify).1
    rw [ledInputs_runs]
    omega
  obtain ⟨call, hcall, hlight⟩ := eventually ledStep (· == .setLevel true) _ toWait (pending_step hk)
    ⟨ledStep_sound s.2 .notify hsound, notify_pending hk htask⟩ hrank
  obtain rfl : call = .setLevel true := beq_iff_eq.mp hlight
  rw [← hled] at hcall
  exact mem_board config _ after hcall

/-- A frame that comes while the LED is on for an earlier one. -/
theorem received_lights_again :
    let config : NodeConfig := ⟨false, MeshRx.RxLocals.initZero⟩
    let frame : BoardInput := .node ⟨.received ⟨espOk, zeroAddr, [], by decide⟩, Env.allOk⟩
    let before : List BoardInput :=
      [.startLed true, .node ⟨.mesh (.parentConnected 2 zeroAddr), Env.allOk⟩, frame, .ledRun]
    let after : List BoardInput := [.ledRun, .ledRun, .ledRun]
    .inl (.setLevel true) ∈ trace (boardStep config)
      (boardStep config (final (boardStep config) (boardInit (k := counting) zeroAddr) before) frame).1 after := by
  intro config frame before after
  exact (received_lights counting_documented config zeroAddr before after _ (by decide) (by decide) (by decide)).1

end Board

end RaceControl.Indicator
