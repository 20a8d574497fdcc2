/-
  Hard filters of the scheduler (`controller/scheduler/policies.py`): the tool
  classes of a step, its constraints, and the eligibility of a node.

  A row whose `input_json` is malformed makes Python raise; the functions that
  read it return in `Except PyError`.

  * `eligible_iff`: a node is eligible iff it passes the filters that do not read
    its counters (`Admits`) and has a slot for the step (`HasSlot`);
  * `Step.WellFormed.isNodeEligible_ok`: nothing is raised for well-formed rows.
-/
import MediaOrchard.Controller.Models

namespace MediaOrchard

/-- `SchedulerConfig` -/
structure SchedulerConfig where
  sharedRoot : String
  heartbeatTimeoutSeconds : ℤ := 30
  maxCpuPercent : ℚ := 85
  maxMemoryPercent : ℚ := 85
  minFreeDiskGb : ℚ := 20
  maxRuntimeOnBatteryMinutes : ℤ := 20
  nodePriorities : List (String × ℤ) := []

/-- `EligibilityResult` -/
structure EligibilityResult where
  eligible : Bool
  reason : String
  deriving DecidableEq, Repr

/-- `is_whisper_step` -/
def isWhisperStep (step : Step) : Bool :=
  step.toolName ∈ ["transcribe_audio", "mlx_whisper", "whisper", "whisper_tool"]

/-- `is_ffmpeg_step` -/
def isFfmpegStep (step : Step) : Bool :=
  step.toolName ∈ ["probe_media", "extract_audio", "ffprobe", "ffmpeg"] ||
    "ffmpeg_".toList.isPrefixOf step.toolName.toList

/-- `step_constraints` -/
def stepConstraints (step : Step) : Json :=
  if step.inputJson.isEmpty then .obj [] else Dict.getD step.inputJson "constraints" (.obj [])

/-- `step_constraints(step).get("avoid_nodes", [])` -/
def avoidNodes (step : Step) : Except PyError Json :=
  match stepConstraints step with
  | .obj d => .ok (Dict.getD d "avoid_nodes" (.arr []))
  | _ => .error .attributeError

/-- `estimated_runtime_minutes` -/
def estimatedRuntimeMinutes (step : Step) : Except PyError PyFloat :=
  if step.inputJson.isEmpty then .ok (.fin 0)
  else (Dict.getD step.inputJson "estimated_runtime_minutes" (.int 0)).floatOr0

/-- `heartbeat_expired`, with times in microseconds. -/
def heartbeatExpired (node : Node) (config : SchedulerConfig) (now : Instant) : Bool :=
  match node.lastHeartbeatAt with
  | none => true
  | some last => decide (now - last > config.heartbeatTimeoutSeconds * 1000000)

/-- `node.on_battery and estimated_runtime_minutes(step) > …`: the estimate is
    read only for nodes on battery. -/
def batteryBlocked (step : Step) (node : Node) (config : SchedulerConfig) : Except PyError Bool :=
  if node.onBattery then
    (estimatedRuntimeMinutes step).map (·.gt config.maxRuntimeOnBatteryMinutes)
  else .ok false

/-- `is_node_eligible` -/
def isNodeEligible (step : Step) (node : Node) (config : SchedulerConfig) (now : Instant) :
    Except PyError EligibilityResult :=
  if node.status ≠ .online then .ok ⟨false, "node_offline"⟩
  else if heartbeatExpired node config now then .ok ⟨false, "heartbeat_expired"⟩
  else if node.sharedRoot ≠ config.sharedRoot then .ok ⟨false, "shared_root_mismatch"⟩
  else if node.cpuPercent > config.maxCpuPercent then .ok ⟨false, "cpu_too_high"⟩
  else if node.memoryPercent > config.maxMemoryPercent then .ok ⟨false, "memory_too_high"⟩
  else if node.freeDiskGb < config.minFreeDiskGb then .ok ⟨false, "disk_too_low"⟩
  else if node.thermalState ∈ ["serious", "critical"] then .ok ⟨false, "thermal_blocked"⟩
  else do
    let avoided ← (← avoidNodes step).contains node.id
    if avoided then return ⟨false, "node_avoided"⟩
    else
      let blocked ← batteryBlocked step node config
      if blocked then return ⟨false, "battery_runtime_blocked"⟩
      else if isWhisperStep step ∧ node.activeWhisperJobs ≥ node.maxWhisperJobs then
        return ⟨false, "whisper_concurrency_full"⟩
      else if isFfmpegStep step ∧ node.activeFfmpegJobs ≥ node.maxFfmpegJobs then
        return ⟨false, "ffmpeg_concurrency_full"⟩
      else return ⟨true, "eligible"⟩

/-- No tool is in both classes. -/
theorem not_whisper_and_ffmpeg (step : Step) (h : isWhisperStep step) : ¬ isFfmpegStep step := by
  simp only [isWhisperStep, List.mem_cons, List.not_mem_nil, or_false, decide_eq_true_eq] at h
  rcases h with h | h | h | h <;> simp [isFfmpegStep, h]

/-! ## Which nodes are eligible -/

/-- `is_node_eligible(…).eligible` -/
def Eligible (step : Step) (node : Node) (config : SchedulerConfig) (now : Instant) : Prop :=
  ∃ r, isNodeEligible step node config now = .ok r ∧ r.eligible

/-- The filters that do not read the counters of the node. -/
structure Admits (step : Step) (node : Node) (config : SchedulerConfig) (now : Instant) : Prop where
  online : node.status = .online
  fresh : heartbeatExpired node config now = false
  root : node.sharedRoot = config.sharedRoot
  cpu : node.cpuPercent ≤ config.maxCpuPercent
  memory : node.memoryPercent ≤ config.maxMemoryPercent
  disk : config.minFreeDiskGb ≤ node.freeDiskGb
  thermal : node.thermalState ∉ ["serious", "critical"]
  notAvoided : ∃ v, avoidNodes step = .ok v ∧ v.contains node.id = .ok false
  battery : batteryBlocked step node config = .ok false

/-- The node is below the limit of the step's class. -/
structure HasSlot (step : Step) (node : Node) : Prop where
  whisper : isWhisperStep step → node.activeWhisperJobs < node.maxWhisperJobs
  ffmpeg : isFfmpegStep step → node.activeFfmpegJobs < node.maxFfmpegJobs

/-- An eligible node passes the first filter and the rest. -/
theorem passes_filter {c : Prop} [Decidable c] {reason : String}
    {rest : Except PyError EligibilityResult} {r : EligibilityResult}
    (h : (if c then .ok ⟨false, reason⟩ else rest) = .ok r) (hr : r.eligible) :
    ¬ c ∧ rest = .ok r := by
  split_ifs at h with hc
  · cases h
    cases hr
  · exact ⟨hc, h⟩

/-- **A node is eligible iff it passes every filter.** -/
theorem eligible_iff {step : Step} {node : Node} {config : SchedulerConfig} {now : Instant} :
    Eligible step node config now ↔ Admits step node config now ∧ HasSlot step node := by
  constructor
  · rintro ⟨r, h, hr⟩
    unfold isNodeEligible at h
    -- the filters on the node alone
    obtain ⟨h1, h⟩ := passes_filter h hr
    obtain ⟨h2, h⟩ := passes_filter h hr
    obtain ⟨h3, h⟩ := passes_filter h hr
    obtain ⟨h4, h⟩ := passes_filter h hr
    obtain ⟨h5, h⟩ := passes_filter h hr
    obtain ⟨h6, h⟩ := passes_filter h hr
    obtain ⟨h7, h⟩ := passes_filter h hr
    -- the filters that read the step's `input_json`
    cases ha : avoidNodes step with
    | error e => rw [ha] at h; cases h
    | ok avoid =>
    cases hc : avoid.contains node.id with
    | error e => simp only [ha, bind, Except.bind, hc] at h; cases h
    | ok avoided =>
    simp only [ha, bind, Except.bind, hc, pure, Except.pure] at h
    obtain ⟨h8, h⟩ := passes_filter h hr
    cases hb : batteryBlocked step node config with
    | error e => rw [hb] at h; cases h
    | ok blocked =>
    simp only [hb] at h
    obtain ⟨h9, h⟩ := passes_filter h hr
    obtain ⟨hw, h⟩ := passes_filter h hr
    obtain ⟨hf, -⟩ := passes_filter h hr
    simp only [not_and, ge_iff_le, not_le] at hw hf
    rw [Bool.not_eq_true] at h2 h8 h9
    exact ⟨⟨not_not.1 h1, h2, not_not.1 h3, not_lt.1 h4, not_lt.1 h5, not_lt.1 h6, h7,
      ⟨avoid, ha, h8 ▸ hc⟩, h9 ▸ hb⟩, ⟨hw, hf⟩⟩
  · rintro ⟨⟨h1, h2, h3, h4, h5, h6, h7, ⟨avoid, ha, hc⟩, hb⟩, ⟨hw, hf⟩⟩
    refine ⟨⟨true, "eligible"⟩, ?_, rfl⟩
    unfold isNodeEligible
    rw [if_neg (not_not.2 h1), if_neg (by simp [h2]), if_neg (not_not.2 h3), if_neg (not_lt.2 h4),
      if_neg (not_lt.2 h5), if_neg (not_lt.2 h6), if_neg h7]
    simp only [ha, hc, hb, bind, Except.bind, pure, Except.pure, Bool.false_eq_true, if_false]
    rw [if_neg (by simpa using hw), if_neg (by simpa using hf)]

/-! ## The filters before the step -/

/-- The filters that read neither the step nor the counters. -/
structure Fit (node : Node) (config : SchedulerConfig) (now : Instant) : Prop where
  online : node.status = .online
  fresh : heartbeatExpired node config now = false
  root : node.sharedRoot = config.sharedRoot
  cpu : node.cpuPercent ≤ config.maxCpuPercent
  memory : node.memoryPercent ≤ config.maxMemoryPercent
  disk : config.minFreeDiskGb ≤ node.freeDiskGb
  thermal : node.thermalState ∉ ["serious", "critical"]

theorem Admits.fit {step : Step} {n : Node} {config : SchedulerConfig} {now : Instant}
    (h : Admits step n config now) : Fit n config now :=
  ⟨h.online, h.fresh, h.root, h.cpu, h.memory, h.disk, h.thermal⟩

/-- A node that raises behind a filter has passed it. -/
theorem passed_behind {c : Prop} [Decidable c] {x : EligibilityResult}
    {rest : Except PyError EligibilityResult} {e : PyError}
    (h : (if c then .ok x else rest) = .error e) : ¬ c ∧ rest = .error e := by
  split_ifs at h with hc
  exact ⟨hc, h⟩

/-- What raises behind a filter raises. -/
theorem raises_behind {c : Prop} [Decidable c] {x : EligibilityResult}
    {rest : Except PyError EligibilityResult} {e : PyError}
    (h : (if c then .ok x else rest) = .error e) : rest = .error e := (passed_behind h).2

/-- A node that raises is fit: the step is looked at only then. -/
theorem fit_of_error {step : Step} {n : Node} {config : SchedulerConfig} {now : Instant}
    {e : PyError} (h : isNodeEligible step n config now = .error e) : Fit n config now := by
  unfold isNodeEligible at h
  obtain ⟨h1, h⟩ := passed_behind h
  obtain ⟨h2, h⟩ := passed_behind h
  obtain ⟨h3, h⟩ := passed_behind h
  obtain ⟨h4, h⟩ := passed_behind h
  obtain ⟨h5, h⟩ := passed_behind h
  obtain ⟨h6, h⟩ := passed_behind h
  obtain ⟨h7, -⟩ := passed_behind h
  rw [Bool.not_eq_true] at h2
  exact ⟨not_not.1 h1, h2, not_not.1 h3, not_lt.1 h4, not_lt.1 h5, not_lt.1 h6, h7⟩

/-- What the fit nodes go through. -/
theorem isNodeEligible_fit {step : Step} {n : Node} {config : SchedulerConfig} {now : Instant}
    (h : Fit n config now) : isNodeEligible step n config now = do
    let avoided ← (← avoidNodes step).contains n.id
    if avoided then return ⟨false, "node_avoided"⟩
    else
      let blocked ← batteryBlocked step n config
      if blocked then return ⟨false, "battery_runtime_blocked"⟩
      else if isWhisperStep step ∧ n.activeWhisperJobs ≥ n.maxWhisperJobs then
        return ⟨false, "whisper_concurrency_full"⟩
      else if isFfmpegStep step ∧ n.activeFfmpegJobs ≥ n.maxFfmpegJobs then
        return ⟨false, "ffmpeg_concurrency_full"⟩
      else return ⟨true, "eligible"⟩ := by
  unfold isNodeEligible
  rw [if_neg (not_not.2 h.online), if_neg (by simp [h.fresh]), if_neg (not_not.2 h.root),
    if_neg (not_lt.2 h.cpu), if_neg (not_lt.2 h.memory), if_neg (not_lt.2 h.disk),
    if_neg h.thermal]

/-! ## Which steps raise -/

/-- The entries of `input_json` that the scheduler reads are absent or of their
    type: the estimated runtime is a number or the text of one. -/
structure Step.WellTyped (step : Step) : Prop where
  constraints : ∀ v, step.inputJson.get? "constraints" = some v → ∃ d, v = .obj d ∧
    ∀ a, Dict.get? d "avoid_nodes" = some a → ∃ xs, a = .arr xs
  runtime : ∀ v, step.inputJson.get? "estimated_runtime_minutes" = some v →
    ∀ e, v.floatOr0 = .error e → e = .overflowError

/-- They are absent or well-formed: the runtime is one that `float()` converts. -/
structure Step.WellFormed (step : Step) : Prop where
  constraints : ∀ v, step.inputJson.get? "constraints" = some v → ∃ d, v = .obj d ∧
    ∀ a, Dict.get? d "avoid_nodes" = some a → ∃ xs, a = .arr xs
  runtime : ∀ v, step.inputJson.get? "estimated_runtime_minutes" = some v →
    ∃ x, v.floatOr0 = .ok x

theorem Step.WellFormed.wellTyped {step : Step} (h : step.WellFormed) : step.WellTyped where
  constraints := h.constraints
  runtime v hv e he := by
    obtain ⟨x, hx⟩ := h.runtime v hv
    cases hx.symm.trans he

theorem Step.WellTyped.avoidNodes_ok {step : Step} (h : step.WellTyped) :
    ∃ xs, avoidNodes step = .ok (.arr xs) := by
  obtain ⟨d, hd, ha⟩ : ∃ d, stepConstraints step = .obj d ∧
      ∀ a, Dict.get? d "avoid_nodes" = some a → ∃ xs, a = .arr xs := by
    unfold stepConstraints Dict.getD
    split_ifs
    · exact ⟨[], rfl, by intro a ha; cases ha⟩
    · cases hv : step.inputJson.get? "constraints" with
      | none => exact ⟨[], rfl, by intro a ha; cases ha⟩
      | some v =>
        obtain ⟨d, rfl, hd⟩ := h.constraints v hv
        exact ⟨d, rfl, hd⟩
  unfold avoidNodes Dict.getD
  rw [hd]
  cases hv : Dict.get? d "avoid_nodes" with
  | none => exact ⟨[], by simp [hv]⟩
  | some a =>
    obtain ⟨xs, rfl⟩ := ha a hv
    exact ⟨xs, by simp [hv]⟩

theorem Step.WellFormed.estimatedRuntimeMinutes_ok {step : Step} (h : step.WellFormed) :
    ∃ x, estimatedRuntimeMinutes step = .ok x := by
  unfold estimatedRuntimeMinutes Dict.getD
  split_ifs
  · exact ⟨_, rfl⟩
  · cases hv : step.inputJson.get? "estimated_runtime_minutes" with
    | none => exact ⟨.fin 0, rfl⟩
    | some v => exact h.runtime v hv

theorem Step.WellTyped.estimatedRuntimeMinutes_error {step : Step} (h : step.WellTyped)
    {e : PyError} (he : estimatedRuntimeMinutes step = .error e) : e = .overflowError := by
  unfold estimatedRuntimeMinutes Dict.getD at he
  split_ifs at he
  cases hv : step.inputJson.get? "estimated_runtime_minutes" with
  | none => rw [hv] at he; cases he
  | some v =>
    rw [hv] at he
    exact h.runtime v hv e he

/-- The exceptions of `is_node_eligible` are those of the step's `input_json`:
    of its `avoid_nodes` first, then of its estimated runtime. -/
theorem isNodeEligible_error {step : Step} {node : Node} {config : SchedulerConfig}
    {now : Instant} {e : PyError} (h : isNodeEligible step node config now = .error e) :
    avoidNodes step = .error e ∨
      ∃ v, avoidNodes step = .ok v ∧ (v.contains node.id = .error e ∨
        (∃ b, v.contains node.id = .ok b) ∧ estimatedRuntimeMinutes step = .error e) := by
  unfold isNodeEligible at h
  iterate 7 replace h := raises_behind h
  cases ha : avoidNodes step with
  | error e' => rw [ha] at h; cases h; exact Or.inl rfl
  | ok avoid =>
  refine Or.inr ⟨avoid, rfl, ?_⟩
  cases hc : avoid.contains node.id with
  | error e' => simp only [ha, bind, Except.bind, hc] at h; cases h; exact Or.inl rfl
  | ok avoided =>
  refine Or.inr ⟨⟨avoided, rfl⟩, ?_⟩
  simp only [ha, bind, Except.bind, hc, pure, Except.pure] at h
  replace h := raises_behind h
  cases hb : batteryBlocked step node config with
  | ok blocked =>
    simp only [hb] at h
    iterate 3 replace h := raises_behind h
    cases h
  | error e' =>
    rw [hb] at h
    cases h
    unfold batteryBlocked at hb
    split_ifs at hb
    cases hr : estimatedRuntimeMinutes step with
    | ok x => rw [hr] at hb; cases hb
    | error e => rw [hr] at hb; cases hb; rfl

/-- Only the kind of value decides whether `in` raises. -/
theorem Json.contains_error {v : Json} {s : String} {e : PyError} (h : v.contains s = .error e) :
    ∀ s', v.contains s' = .error e := by
  intro s'
  cases v <;> first | exact h | cases h

/-- **Nodes do not decide which exception a step raises.** -/
theorem isNodeEligible_error_unique {step : Step} {n n' : Node} {config : SchedulerConfig}
    {now : Instant} {e e' : PyError} (h : isNodeEligible step n config now = .error e)
    (h' : isNodeEligible step n' config now = .error e') : e = e' := by
  rcases isNodeEligible_error h with ha | ⟨v, ha, hv⟩ <;>
    rcases isNodeEligible_error h' with ha' | ⟨v', ha', hv'⟩ <;> cases ha.symm.trans ha'
  · rfl
  · rcases hv with hc | ⟨⟨b, hb⟩, hr⟩ <;> rcases hv' with hc' | ⟨⟨b', hb'⟩, hr'⟩
    · exact Except.error.inj ((Json.contains_error hc _).symm.trans hc')
    · cases (Json.contains_error hc _).symm.trans hb'
    · cases (Json.contains_error hc' _).symm.trans hb
    · exact Except.error.inj (hr.symm.trans hr')

/-- The estimated runtime of the step is read for the node: it is on battery, and
    passes the filters before that one. -/
structure ReadsRuntime (step : Step) (node : Node) (config : SchedulerConfig) (now : Instant) :
    Prop where
  fit : Fit node config now
  notAvoided : ∃ v, avoidNodes step = .ok v ∧ v.contains node.id = .ok false
  battery : node.onBattery

/-- **When the eligibility of a node raises**: the runtime is read and overflows. -/
theorem Step.WellTyped.isNodeEligible_error_iff {step : Step} (h : step.WellTyped) {node : Node}
    {config : SchedulerConfig} {now : Instant} {e : PyError} :
    isNodeEligible step node config now = .error e ↔ e = .overflowError ∧
      ReadsRuntime step node config now ∧ estimatedRuntimeMinutes step = .error .overflowError := by
  obtain ⟨xs, ha⟩ := h.avoidNodes_ok
  obtain ⟨avoided, hc⟩ : ∃ b, Json.contains (.arr xs) node.id = .ok b := ⟨_, rfl⟩
  constructor
  · intro he
    have hfit := fit_of_error he
    rw [isNodeEligible_fit hfit] at he
    simp only [ha, bind, Except.bind, hc, pure, Except.pure] at he
    obtain ⟨hnot, he⟩ := passed_behind he
    rw [Bool.not_eq_true] at hnot
    cases hb : batteryBlocked step node config with
    | ok blocked =>
      simp only [hb] at he
      iterate 3 replace he := raises_behind he
      cases he
    | error e' =>
      rw [hb] at he
      cases he
      unfold batteryBlocked at hb
      split_ifs at hb with hbattery
      cases hr : estimatedRuntimeMinutes step with
      | ok x => rw [hr] at hb; cases hb
      | error e' =>
        rw [hr] at hb
        cases hb
        obtain rfl := h.estimatedRuntimeMinutes_error hr
        exact ⟨rfl, ⟨hfit, ⟨_, ha, hnot ▸ hc⟩, hbattery⟩, rfl⟩
  · rintro ⟨rfl, ⟨hfit, ⟨v, hv, hnot⟩, hbattery⟩, hr⟩
    rw [isNodeEligible_fit hfit]
    simp only [hv, hnot, batteryBlocked, hbattery, hr, bind, Except.bind, if_true, Except.map,
      Bool.false_eq_true, if_false]

/-- The eligibility of a node for a well-formed step raises no exception. -/
theorem Step.WellFormed.isNodeEligible_ok {step : Step} (h : step.WellFormed) (node : Node)
    (config : SchedulerConfig) (now : Instant) :
    ∃ r, isNodeEligible step node config now = .ok r := by
  cases he : isNodeEligible step node config now with
  | ok r => exact ⟨r, rfl⟩
  | error e =>
    exfalso
    obtain ⟨xs, ha⟩ := h.wellTyped.avoidNodes_ok
    obtain ⟨x, hx⟩ := h.estimatedRuntimeMinutes_ok
    rcases isNodeEligible_error he with ha' | ⟨v, ha', hc | ⟨-, hr⟩⟩
    · cases ha.symm.trans ha'
    · cases ha.symm.trans ha'
      cases hc
    · cases hx.symm.trans hr

end MediaOrchard
