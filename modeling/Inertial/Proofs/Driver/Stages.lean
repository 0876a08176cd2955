import Inertial.Proofs.Driver.FirstFailure
import Inertial.Proofs.Driver.Mirror
import Inertial.Proofs.Driver.Rails

/-!
# The stages of a request

A request for one sensor comes down to at most three stages: its range and rate, its filter and its
mode, each if it changes. A stage writes one register and puts one configuration on record.
`Request.stages` lists them, and `Driver.exec_grant` says that a driver which grants the request
stores them one by one and then pauses if the change of what runs asks for it.

After the first stage the request has the other stages left and the same goal
(`Request.isFirst`), so whatever is known of the first stage is known of all.
-/

set_option autoImplicit false

namespace Inertial

/-- A register that is written, and the configuration that is put on record once it was. -/
structure Stage where
  register : ConfigRegister
  config : DeviceConfig
deriving DecidableEq

namespace Stage

/-- The byte that is written. -/
def value (x : Stage) : Byte :=
  x.config.encode x.register

/-- The access that the write is, once the first bank is selected. -/
def access (bus : Bus) (x : Stage) : Access :=
  bus.writeAccess x.register.address x.value

/-- The configuration on record after stages. -/
def reached (c : DeviceConfig) (stages : List Stage) : DeviceConfig :=
  stages.foldl (fun _ x => x.config) c

/-- What is written in stages, each time with the register and the byte. -/
def written (stages : List Stage) : List (Address × Byte) :=
  stages.map fun x => (x.register.address, x.value)

/-- No stages leave the configuration as it is. -/
@[simp] theorem reached_nil (c : DeviceConfig) : reached c [] = c := rfl

/-- Every stage says the whole configuration after it. -/
@[simp] theorem reached_cons (c : DeviceConfig) (x : Stage) (stages : List Stage) :
    reached c (x :: stages) = reached x.config stages := rfl

/-- Later stages go on from what earlier ones reached. -/
theorem reached_append (c : DeviceConfig) (stages later : List Stage) :
    reached c (stages ++ later) = reached (reached c stages) later :=
  List.foldl_append

end Stage

/-! ## One sensor -/

namespace Sensor

variable {ρ : Type}

/-- The configuration that a sensor's wishes ask for. -/
def goal (sensor : Sensor ρ) (wishes : SensorRequest ρ) (c : DeviceConfig) : DeviceConfig :=
  sensor.set (wishes.resolve (sensor.get c)) c

/-- The stages in which a sensor's settings are changed to a target: its range and rate, its filter
and its mode, each of them only if it changes. -/
def stagesTo [DecidableEq ρ] (sensor : Sensor ρ) (target : SensorConfig ρ) (c : DeviceConfig) :
    List Stage :=
  let current := sensor.get c
  let ranged := { current with range := target.range, rate := target.rate }
  let filtered := { ranged with filter := target.filter }
  (if target.range ≠ current.range ∨ target.rate ≠ current.rate then
      [⟨sensor.register, sensor.set ranged c⟩] else []) ++
    ((if target.filter ≠ current.filter then [⟨.filters, sensor.set filtered c⟩] else []) ++
      if target.mode ≠ current.mode then [⟨.power, sensor.set target c⟩] else [])

/-- The stages in which a sensor's wishes are granted. -/
def stages [DecidableEq ρ] (sensor : Sensor ρ) (wishes : SensorRequest ρ) (c : DeviceConfig) :
    List Stage :=
  sensor.stagesTo (wishes.resolve (sensor.get c)) c

/-- What the registers hold tells the settings of a sensor, and each register tells its own. -/
structure IsTold [Setting ρ 3] (sensor : Sensor ρ) : Prop where
  register_ne_filters : sensor.register ≠ .filters
  register_ne_power : sensor.register ≠ .power
  range : ∀ (v : SensorConfig ρ) (c : DeviceConfig),
    (sensor.set v c).encode sensor.register = c.encode sensor.register →
      v.range = (sensor.get c).range ∧ v.rate = (sensor.get c).rate
  filter : ∀ (v : SensorConfig ρ) (c : DeviceConfig),
    (sensor.set v c).encode .filters = c.encode .filters → v.filter = (sensor.get c).filter

/-- The registers tell the settings of the gyroscope. -/
theorem isTold_gyro : IsTold .gyro where
  register_ne_filters := by decide
  register_ne_power := by decide
  range := fun _ _ h => RangeRegister.encode_injective h
  filter := fun _ _ h => (FilterRegister.encode_injective h).1

/-- They tell those of the accelerometer. -/
theorem isTold_accel : IsTold .accel where
  register_ne_filters := by decide
  register_ne_power := by decide
  range := fun _ _ h => RangeRegister.encode_injective h
  filter := fun _ _ h => (FilterRegister.encode_injective h).2

variable {sensor : Sensor ρ}

/-- The mode of a sensor is told by the power register. -/
theorem IsPart.mode_eq (hsensor : sensor.IsPart) {v : SensorConfig ρ} {c : DeviceConfig}
    (h : (sensor.set v c).power = c.power) : v.mode = (sensor.get c).mode := by
  have hset := hsensor.withPower v c
  rw [h, DeviceConfig.withPower_power] at hset
  have hget := congrArg (fun c => (sensor.get c).mode) hset
  dsimp only at hget
  rw [hsensor.get_set] at hget
  exact hget.symm

/-- What is asked for does not change when some of it is granted. -/
theorem resolve_between (wishes : SensorRequest ρ) {current v : SensorConfig ρ}
    (hmode : v.mode = current.mode ∨ v.mode = (wishes.resolve current).mode)
    (hrange : v.range = current.range ∨ v.range = (wishes.resolve current).range)
    (hrate : v.rate = current.rate ∨ v.rate = (wishes.resolve current).rate)
    (hfilter : v.filter = current.filter ∨ v.filter = (wishes.resolve current).filter) :
    wishes.resolve v = wishes.resolve current := by
  have hfield : ∀ {τ : Type} (wish : Option τ) {now old : τ},
      now = old ∨ now = wish.getD old → wish.getD now = wish.getD old := by
    rintro τ (_ | _) now old (rfl | rfl) <;> rfl
  simp only [SensorRequest.resolve, SensorConfig.mk.injEq]
  exact ⟨hfield _ hmode, hfield _ hrange, hfield _ hrate, hfield _ hfilter⟩

end Sensor

/-! ## The first stage -/

/-- What there is to know of the first stage `x` on the way from a configuration to another, when
the stages and the goal from any configuration are known. -/
structure Stage.IsFirst (stages : DeviceConfig → List Stage) (goal : DeviceConfig → DeviceConfig)
    (c : DeviceConfig) (x : Stage) (rest : List Stage) : Prop where
  /-- The others are left after it. -/
  stages_after : stages x.config = rest
  goal_after : goal x.config = goal c
  /-- What runs changes in the last stage only. -/
  power : rest ≠ [] → x.config.power = c.power
  /-- The register holds something else before. -/
  changes : x.value ≠ c.encode x.register
  /-- The other registers hold the same before and after. -/
  others : ∀ t, t ≠ x.register → x.config.encode t = c.encode t

namespace Sensor

variable {ρ : Type} [DecidableEq ρ] [Setting ρ 3] {sensor : Sensor ρ}

omit [Setting ρ 3] in
/-- With some of the settings granted, so that the same is asked for, the goal is the same and what
is left to do is what they differ in from the target. -/
theorem stages_set (hpart : sensor.IsPart) {wishes : SensorRequest ρ} {c : DeviceConfig}
    {target : SensorConfig ρ} (htarget : wishes.resolve (sensor.get c) = target)
    (v : SensorConfig ρ) (hv : wishes.resolve v = target) :
    sensor.goal wishes (sensor.set v c) = sensor.goal wishes c ∧
      sensor.stages wishes (sensor.set v c) =
        (if target.range ≠ v.range ∨ target.rate ≠ v.rate then
          [⟨sensor.register, sensor.set { v with range := target.range, rate := target.rate } c⟩]
        else []) ++
          ((if target.filter ≠ v.filter then
            [⟨.filters, sensor.set { target with mode := v.mode } c⟩] else []) ++
            if target.mode ≠ v.mode then [⟨.power, sensor.set target c⟩] else []) := by
  constructor
  · rw [goal, goal, hpart.get_set, hv, htarget, hpart.set_set]
  · rw [stages, hpart.get_set, hv, stagesTo, hpart.get_set]
    simp only [hpart.set_set]

/-- If the range or the rate changes, both are set first. -/
theorem isFirst_range (hpart : sensor.IsPart) (hseparate : sensor.IsSeparate)
    (htold : sensor.IsTold) {wishes : SensorRequest ρ} {c : DeviceConfig}
    {current target : SensorConfig ρ} (hcurrent : sensor.get c = current)
    (htarget : wishes.resolve current = target)
    (hchanges : target.range ≠ current.range ∨ target.rate ≠ current.rate) :
    Stage.IsFirst (sensor.stages wishes) (sensor.goal wishes) c
      ⟨sensor.register, sensor.set { current with range := target.range, rate := target.rate } c⟩
      ((if target.filter ≠ current.filter then
          [⟨.filters, sensor.set { target with mode := current.mode } c⟩] else []) ++
        if target.mode ≠ current.mode then [⟨.power, sensor.set target c⟩] else []) := by
  subst hcurrent htarget
  let target := wishes.resolve (sensor.get c)
  let ranged := { sensor.get c with range := target.range, rate := target.rate }
  obtain ⟨hgoal, hstages⟩ := stages_set hpart rfl ranged
    (resolve_between wishes (.inl rfl) (.inr rfl) (.inr rfl) (.inl rfl))
  rw [if_neg (by simp [ranged, target]), List.nil_append] at hstages
  refine ⟨hstages, hgoal, fun _ => hpart.power ranged c rfl, ?_, hseparate.range c _ _⟩
  intro hsame
  obtain ⟨hrange, hrate⟩ := htold.range ranged c hsame
  exact hchanges.elim (fun hne => hne hrange) fun hne => hne hrate

/-- If of the rest the filter changes, it is set first. -/
theorem isFirst_filter (hpart : sensor.IsPart) (hseparate : sensor.IsSeparate)
    (htold : sensor.IsTold) {wishes : SensorRequest ρ} {c : DeviceConfig}
    {current target : SensorConfig ρ} (hcurrent : sensor.get c = current)
    (htarget : wishes.resolve current = target) (hrange : target.range = current.range)
    (hrate : target.rate = current.rate) (hchanges : target.filter ≠ current.filter) :
    Stage.IsFirst (sensor.stages wishes) (sensor.goal wishes) c
      ⟨.filters, sensor.set { current with filter := target.filter } c⟩
      (if target.mode ≠ current.mode then [⟨.power, sensor.set target c⟩] else []) := by
  subst hcurrent htarget
  let target := wishes.resolve (sensor.get c)
  let filtered := { sensor.get c with filter := target.filter }
  obtain ⟨hgoal, hstages⟩ := stages_set hpart rfl filtered
    (resolve_between wishes (.inl rfl) (.inl rfl) (.inl rfl) (.inr rfl))
  have hsame : ¬ (target.range ≠ filtered.range ∨ target.rate ≠ filtered.rate) :=
    not_or.mpr ⟨not_not_intro hrange, not_not_intro hrate⟩
  rw [if_neg hsame, if_neg (by simp [filtered, target]), List.nil_append, List.nil_append]
    at hstages
  refine ⟨hstages, hgoal, fun _ => hpart.power filtered c rfl, ?_, hseparate.filter c _⟩
  intro hsame
  exact hchanges (htold.filter filtered c hsame)

omit [Setting ρ 3] in
/-- If nothing but the mode changes, that is the only stage. -/
theorem isFirst_mode (hpart : sensor.IsPart) {wishes : SensorRequest ρ} {c : DeviceConfig}
    {current target : SensorConfig ρ} (hcurrent : sensor.get c = current)
    (htarget : wishes.resolve current = target)
    (hsame : target = { current with mode := target.mode })
    (hchanges : target.mode ≠ current.mode) :
    Stage.IsFirst (sensor.stages wishes) (sensor.goal wishes) c ⟨.power, sensor.set target c⟩
      [] := by
  obtain ⟨hgoal, hstages⟩ := stages_set hpart (by rw [hcurrent, htarget]) target
    (by rw [← htarget]; exact resolve_between wishes (.inr rfl) (.inr rfl) (.inr rfl) (.inr rfl))
  rw [if_neg (by simp), if_neg (by simp), if_neg (by simp)] at hstages
  refine ⟨hstages, hgoal, fun hne => absurd rfl hne, ?_, ?_⟩
  · intro hsame
    exact hchanges ((hpart.mode_eq (PowerRegister.encode_injective hsame)).trans (by rw [hcurrent]))
  · have hset : sensor.set target c = c.withPower (sensor.set target c).power := by
      rw [hpart.withPower, hcurrent]
      exact congrArg (sensor.set · c) hsame
    intro t ht
    rw [hset]
    cases t with
    | power => exact absurd rfl ht
    | _ => rfl

/-- After its first stage a request has the other stages left and the same goal. -/
theorem isFirst (hpart : sensor.IsPart) (hseparate : sensor.IsSeparate) (htold : sensor.IsTold)
    (wishes : SensorRequest ρ) {c : DeviceConfig} {x : Stage} {rest : List Stage}
    (h : sensor.stages wishes c = x :: rest) :
    Stage.IsFirst (sensor.stages wishes) (sensor.goal wishes) c x rest := by
  let current := sensor.get c
  let target := wishes.resolve current
  change (if target.range ≠ current.range ∨ target.rate ≠ current.rate then
      [⟨sensor.register,
        sensor.set { current with range := target.range, rate := target.rate } c⟩] else []) ++
    ((if target.filter ≠ current.filter then
        [⟨.filters, sensor.set { target with mode := current.mode } c⟩] else []) ++
      if target.mode ≠ current.mode then [⟨.power, sensor.set target c⟩] else []) = x :: rest at h
  by_cases hranges : target.range ≠ current.range ∨ target.rate ≠ current.rate
  · rw [if_pos hranges] at h
    obtain ⟨rfl, rfl⟩ := List.cons.inj h
    exact isFirst_range hpart hseparate htold rfl rfl hranges
  · rw [if_neg hranges, List.nil_append] at h
    rw [not_or] at hranges
    have hrange : target.range = current.range := Decidable.of_not_not hranges.1
    have hrate : target.rate = current.rate := Decidable.of_not_not hranges.2
    by_cases hfilter : target.filter ≠ current.filter
    · have hfiltered : { target with mode := current.mode } =
          { current with filter := target.filter } := by
        simp only [hrange, hrate]
      rw [if_pos hfilter, hfiltered] at h
      obtain ⟨rfl, rfl⟩ := List.cons.inj h
      exact isFirst_filter hpart hseparate htold rfl rfl hrange hrate hfilter
    · rw [if_neg hfilter, List.nil_append] at h
      by_cases hmode : target.mode ≠ current.mode
      · have hsame : target = { current with mode := target.mode } := by
          rw [← hrange, ← hrate, ← Decidable.of_not_not hfilter]
        rw [if_pos hmode] at h
        obtain ⟨rfl, rfl⟩ := List.cons.inj h
        exact isFirst_mode hpart rfl rfl hsame hmode
      · rw [if_neg hmode] at h
        cases h

omit [Setting ρ 3] in
/-- After all stages the goal is reached. -/
theorem goal_of_stages_nil (hpart : sensor.IsPart) {wishes : SensorRequest ρ} {c : DeviceConfig}
    (h : sensor.stages wishes c = []) : sensor.goal wishes c = c := by
  obtain ⟨hrange, hrest⟩ := List.append_eq_nil_iff.mp h
  obtain ⟨hfilter, hmode⟩ := List.append_eq_nil_iff.mp hrest
  have hnot : ∀ {P : Prop} [Decidable P] {x : Stage}, (if P then [x] else []) = [] → ¬ P := by
    intro P _ x h hP
    rw [if_pos hP] at h
    cases h
  have hsame := not_or.mp (hnot hrange)
  have htarget : wishes.resolve (sensor.get c) = sensor.get c := by
    have hranges := Decidable.of_not_not hsame.1
    have hrates := Decidable.of_not_not hsame.2
    have hfilters := Decidable.of_not_not (hnot hfilter)
    have hmodes := Decidable.of_not_not (hnot hmode)
    rcases hv : wishes.resolve (sensor.get c) with ⟨mode, range, rate, filter⟩
    rw [hv] at hranges hrates hfilters hmodes
    cases hranges
    cases hrates
    cases hfilters
    cases hmodes
    rfl
  rw [goal, htarget, hpart.set_get]

/-- No two stages write the same register. -/
theorem nodup_stages (htold : sensor.IsTold) (wishes : SensorRequest ρ) (c : DeviceConfig) :
    ((sensor.stages wishes c).map Stage.register).Nodup := by
  have hall : [sensor.register, .filters, .power].Nodup := by
    simp [htold.register_ne_filters, htold.register_ne_power]
  have hsublist : ∀ {P : Prop} [Decidable P] {x : Stage},
      ((if P then [x] else []).map Stage.register).Sublist [x.register] := by
    intro P _ x
    split
    · exact .refl _
    · exact List.nil_sublist _
  refine List.Nodup.sublist ?_ hall
  rw [stages, stagesTo, List.map_append, List.map_append]
  exact hsublist.append (hsublist.append hsublist)

end Sensor

/-! ## Either sensor -/

namespace Request

/-- The configuration that a request asks for. -/
def goal : Request → DeviceConfig → DeviceConfig
  | .gyro wishes => Sensor.gyro.goal wishes
  | .accel wishes => Sensor.accel.goal wishes

/-- The stages in which a request is granted. -/
def stages : Request → DeviceConfig → List Stage
  | .gyro wishes => Sensor.gyro.stages wishes
  | .accel wishes => Sensor.accel.stages wishes

variable {request : Request} {c : DeviceConfig}

/-- The first stage of a request is a first stage for its sensor. -/
theorem isFirst {x : Stage} {rest : List Stage} (h : request.stages c = x :: rest) :
    Stage.IsFirst request.stages request.goal c x rest := by
  cases request with
  | gyro wishes =>
    exact Sensor.isFirst Sensor.isPart_gyro Sensor.isSeparate_gyro Sensor.isTold_gyro wishes h
  | accel wishes =>
    exact Sensor.isFirst Sensor.isPart_accel Sensor.isSeparate_accel Sensor.isTold_accel wishes h

/-- A request without stages asks for what is there. -/
theorem goal_of_stages_nil (h : request.stages c = []) : request.goal c = c := by
  cases request with
  | gyro wishes => exact Sensor.goal_of_stages_nil Sensor.isPart_gyro h
  | accel wishes => exact Sensor.goal_of_stages_nil Sensor.isPart_accel h

/-- No register is written twice for one request. -/
theorem nodup_stages (request : Request) (c : DeviceConfig) :
    ((request.stages c).map Stage.register).Nodup := by
  cases request with
  | gyro wishes => exact Sensor.nodup_stages Sensor.isTold_gyro wishes c
  | accel wishes => exact Sensor.nodup_stages Sensor.isTold_accel wishes c

/-- After some of its stages a request has the others left and the same goal, and what runs has not
changed unless none is left. -/
theorem stages_reached {done rest : List Stage} (h : request.stages c = done ++ rest) :
    request.stages (Stage.reached c done) = rest ∧
      request.goal (Stage.reached c done) = request.goal c ∧
      (rest ≠ [] → (Stage.reached c done).power = c.power) := by
  induction done generalizing c with
  | nil => exact ⟨h, rfl, fun _ => rfl⟩
  | cons x done ih =>
    have hfirst := request.isFirst h
    obtain ⟨hstages, hgoal, hpower⟩ := ih hfirst.stages_after
    refine ⟨hstages, hgoal.trans hfirst.goal_after, fun hrest => (hpower hrest).trans ?_⟩
    exact hfirst.power (List.append_ne_nil_of_right_ne_nil done hrest)

/-- After all stages the goal is reached. -/
theorem reached_stages (request : Request) (c : DeviceConfig) :
    Stage.reached c (request.stages c) = request.goal c := by
  obtain ⟨hstages, hgoal, _⟩ := request.stages_reached (c := c) (List.append_nil _).symm
  rw [← hgoal, request.goal_of_stages_nil hstages]

end Request

namespace System

/-- The system with events added to the trace. -/
def logAll (events : List Event) (s : System) : System :=
  { s with bench := { s.bench with trace := s.bench.trace ++ events } }

/-- Adding no events changes nothing. -/
@[simp] theorem logAll_nil (s : System) : s.logAll [] = s := by
  simp [logAll]

/-- Events may be added in two parts. -/
@[simp] theorem logAll_logAll (events later : List Event) (s : System) :
    (s.logAll events).logAll later = s.logAll (events ++ later) := by
  simp [logAll]

/-- A wait does nothing but log its begin and its end. -/
theorem wait_eq_logAll (d : Delay) (s : System) :
    Routine.wait d s = s.logAll [.delay d, .woke] := by
  simp [logAll, Routine.wait, System.log, Bench.log]

end System

namespace Driver

variable {α : Type} {s : System}

/-! ## Granting a request is storing its stages -/

/-- What follows the stages: a pause if the change of what runs asks for one, and the answer how
long the output takes to settle. -/
def finish (waits : Settling) : Driver Duration := do
  if waits.pause ≠ .zero then
    sleep (.micros waits.pause.micros)
  return waits.settle

/-- Stores stages one by one. -/
def storeAll (stages : List Stage) : Driver Unit :=
  stages.forM fun x => store x.register x.config

/-- The first stage is stored before the others. -/
theorem storeAll_cons (x : Stage) (stages : List Stage) :
    storeAll (x :: stages) = store x.register x.config >>= fun _ => storeAll stages := rfl

/-- What follows a change of the configuration may count on it. -/
theorem exec_store_bind_congr {r : ConfigRegister} {config : DeviceConfig} {x y : Driver α}
    (h : ∀ t, t.core.config = config → exec x t = exec y t) :
    exec (store r config >>= fun _ => x) s = exec (store r config >>= fun _ => y) s := by
  have hstored := outcome_store r config s rfl
  rw [exec_bind, exec_bind]
  rcases hx : exec (store r config) s with ⟨_ | _, t⟩
  · rfl
  · rw [hx] at hstored
    exact h t (congrArg Core.config hstored)

/-- A change of what runs is one stage if anything changes. -/
theorem exec_setPower_eq (p : PowerState) :
    exec (setPower p) s =
      exec (storeAll (if p ≠ s.core.config.power then [⟨.power, s.core.config.withPower p⟩] else [])
        >>= fun _ => finish (.between s.core.config.power p)) s := by
  rw [setPower, exec_bind, exec_getCore]
  dsimp only
  by_cases hp : p = s.core.config.power
  · rw [if_pos hp, if_neg (not_not_intro hp), ← hp, Settling.between_self]
    rfl
  · rw [if_neg hp, if_pos hp, storeAll_cons, bind_assoc]
    rfl

section

variable {ρ : Type} [DecidableEq ρ] [Setting ρ 3] {sensor : Sensor ρ}

omit [DecidableEq ρ] [Setting ρ 3] in
/-- The last step of a change of one sensor's settings, once all but the mode has its target. -/
theorem exec_setMode (hpart : sensor.IsPart) {target : SensorConfig ρ} (v : SensorConfig ρ)
    {c : DeviceConfig} (hv : { v with mode := target.mode } = target)
    (hmode : v.mode = (sensor.get c).mode)
    {t : System} (ht : t.core.config = sensor.set v c) :
    exec (getCore >>= fun core =>
        setPower (sensor.set { sensor.get core.config with mode := target.mode } core.config).power)
      t =
      exec (storeAll (if target.mode ≠ (sensor.get c).mode then [⟨.power, sensor.set target c⟩]
        else []) >>= fun _ => finish (.between c.power (sensor.set target c).power)) t := by
  have hsame : (sensor.set v c).power = c.power := hpart.power v c hmode
  have hset : (sensor.set v c).withPower (sensor.set target c).power = sensor.set target c := by
    have h := hpart.withPower target (sensor.set v c)
    rw [hpart.set_set, hpart.get_set, hv, hpart.set_set] at h
    exact h
  have hchanges : (sensor.set target c).power ≠ c.power ↔ target.mode ≠ (sensor.get c).mode :=
    not_congr ⟨hpart.mode_eq, hpart.power target c⟩
  rw [exec_bind, exec_getCore]
  dsimp only
  rw [exec_setPower_eq, ht, hpart.get_set, hv, hpart.set_set, hset, hsame]
  simp only [hchanges]

/-- To grant one sensor's wishes is to store the stages and to pause. -/
theorem exec_configure (hpart : sensor.IsPart) (wishes : SensorRequest ρ) (s : System) :
    exec (configure sensor wishes) s =
      exec (storeAll (sensor.stages wishes s.core.config) >>= fun _ =>
        finish (.between s.core.config.power (sensor.goal wishes s.core.config).power)) s := by
  let c := s.core.config
  let current := sensor.get c
  let target := wishes.resolve current
  let ranged := { current with range := target.range, rate := target.rate }
  let filtered := { ranged with filter := target.filter }
  let last := finish (.between c.power (sensor.set target c).power)
  let mode : List Stage :=
    if target.mode ≠ current.mode then [⟨.power, sensor.set target c⟩] else []
  let filter : List Stage :=
    if target.filter ≠ current.filter then [⟨.filters, sensor.set filtered c⟩] else []
  let setMode : Driver Duration := getCore >>= fun core =>
    setPower (sensor.set { sensor.get core.config with mode := target.mode } core.config).power
  -- From the last stage to the first: each stage may count on what the stages before it recorded.
  have hmode : ∀ t : System, t.core.config = sensor.set filtered c →
      exec setMode t = exec (storeAll mode >>= fun _ => last) t :=
    fun t ht => exec_setMode hpart filtered rfl rfl ht
  have hfilter : ∀ t : System, t.core.config = sensor.set ranged c →
      exec (if target.filter ≠ current.filter then
          getCore >>= fun core => store .filters
            (sensor.set { sensor.get core.config with filter := target.filter } core.config) >>=
              fun _ => setMode
        else setMode) t = exec (storeAll (filter ++ mode) >>= fun _ => last) t := by
    intro t ht
    by_cases hchanges : target.filter ≠ current.filter
    · simp only [filter, if_pos hchanges]
      rw [exec_bind, exec_getCore]
      dsimp only
      rw [ht, hpart.get_set, hpart.set_set, List.singleton_append, storeAll_cons, bind_assoc]
      exact exec_store_bind_congr hmode
    · simp only [filter, if_neg hchanges]
      refine hmode t (ht.trans (congrArg (sensor.set · c) ?_))
      change ranged = { ranged with filter := target.filter }
      rw [Decidable.of_not_not hchanges]
  unfold configure
  rw [exec_bind, exec_getCore]
  dsimp only
  by_cases hchanges : target.range ≠ current.range ∨ target.rate ≠ current.rate
  · rw [if_pos hchanges, exec_bind, exec_getCore]
    dsimp only
    have hstages : sensor.stages wishes c = ⟨sensor.register, sensor.set ranged c⟩ ::
        (filter ++ mode) := congrArg (· ++ (filter ++ mode)) (if_pos hchanges)
    rw [hstages, storeAll_cons, bind_assoc]
    exact exec_store_bind_congr hfilter
  · rw [if_neg hchanges]
    have hstages : sensor.stages wishes c = filter ++ mode :=
      congrArg (· ++ (filter ++ mode)) (if_neg hchanges)
    have hranged : ranged = current := by
      change { current with range := target.range, rate := target.rate } = current
      rw [not_or] at hchanges
      rw [Decidable.of_not_not hchanges.1, Decidable.of_not_not hchanges.2]
    rw [hstages]
    exact hfilter s (by rw [hranged]; exact (hpart.set_get c).symm)

end

/-- To grant a request is to store its stages and to pause. -/
theorem exec_grant (request : Request) (s : System) :
    exec (grant request) s =
      exec (storeAll (request.stages s.core.config) >>= fun _ =>
        finish (.between s.core.config.power (request.goal s.core.config).power)) s := by
  cases request with
  | gyro wishes => exact exec_configure Sensor.isPart_gyro wishes s
  | accel wishes => exact exec_configure Sensor.isPart_accel wishes s

/-! ## Storing stages -/

/-- The system once a stage was stored. -/
def afterStage (x : Stage) (s : System) : System :=
  { s with
    bench := (s.bench.attempt (x.access s.bench.bus)).2.withMemory
      (s.bench.chip.memory.write x.register.address x.value)
    core := { s.core with config := x.config } }

/-- In the first bank a stage is one access. If that fails nothing has changed. -/
theorem exec_store (hs : s.bench.InFirstBank) (x : Stage) :
    exec (store x.register x.config) s =
      if s.bench.plan.failsAccess s.bench.accesses (x.access s.bench.bus) then
        (.error (.bus (x.access s.bench.bus).fault),
          { s with bench := (s.bench.attempt (x.access s.bench.bus)).2 })
      else (.ok (), afterStage x s) := by
  have hplain : (RegisterOp.write x.register.address x.value).IsPlain :=
    ⟨x.register.isRegular_write _, x.register.bankOf_address⟩
  have hok : (s.bench.attempt (x.access s.bench.bus)).1 =
      !s.bench.plan.failsAccess s.bench.accesses (x.access s.bench.bus) := rfl
  change exec (register (.write x.register.address x.value) >>= fun _ => _) s = _
  rw [exec_bind, exec_register_single hplain rfl hs]
  unfold afterStage
  rw [show s.bench.bus.access (.write x.register.address x.value) = x.access s.bench.bus from rfl]
  rcases hx : s.bench.attempt (x.access s.bench.bus) with ⟨ok, b⟩
  rw [hx] at hok
  dsimp only at hok
  subst hok
  cases s.bench.plan.failsAccess s.bench.accesses (x.access s.bench.bus) <;> rfl

/-- What storing stages from a system comes to: `done` were stored, of `rest` the first failed. -/
structure Stored (s : System) (stages done rest : List Stage)
    (result : Except DriverError Unit × System) : Prop where
  stages : stages = done ++ rest
  inFirstBank : result.2.bench.InFirstBank
  trace : result.2.bench.trace = s.bench.trace ++
    (done.map (fun x => .access (x.access s.bench.bus) true) ++
      (rest.take 1).map fun x => .access (x.access s.bench.bus) false)
  core : result.2.core = { s.core with config := Stage.reached s.core.config done }
  chip : result.2.bench.chip =
    { s.bench.chip with memory := s.bench.chip.memory.writeAll (Stage.written done) }
  succeeded : ∀ i x, done[i]? = some x →
    s.bench.plan.failsAccess (s.bench.accesses + i) (x.access s.bench.bus) = false
  failed : ∀ x, rest.head? = some x →
    s.bench.plan.failsAccess (s.bench.accesses + done.length) (x.access s.bench.bus) = true ∧
      result.1 = .error (.bus (x.access s.bench.bus).fault)
  completed : rest = [] → result.1 = .ok ()

/-- The first stage may fail. -/
theorem stored_of_fails (hs : s.bench.InFirstBank) {x : Stage} (stages : List Stage)
    (hx : s.bench.plan.failsAccess s.bench.accesses (x.access s.bench.bus) = true) :
    Stored s (x :: stages) [] (x :: stages)
      (.error (.bus (x.access s.bench.bus).fault),
        { s with bench := (s.bench.attempt (x.access s.bench.bus)).2 }) := by
  have htrace := s.bench.trace_attempt (x.access s.bench.bus)
  have hok : (s.bench.attempt (x.access s.bench.bus)).1 = false := congrArg not hx
  rw [hok] at htrace
  refine ⟨rfl, hs, htrace, rfl, rfl, by simp, ?_, nofun⟩
  intro y hy
  cases hy
  exact ⟨hx, rfl⟩

/-- If the first stage succeeds the others follow. -/
theorem Stored.cons {x : Stage} {stages done rest : List Stage}
    {result : Except DriverError Unit × System}
    (hx : s.bench.plan.failsAccess s.bench.accesses (x.access s.bench.bus) = false)
    (h : Stored (afterStage x s) stages done rest result) :
    Stored s (x :: stages) (x :: done) rest result := by
  have hok : (s.bench.attempt (x.access s.bench.bus)).1 = true := congrArg not hx
  have htrace : (afterStage x s).bench.trace =
      s.bench.trace ++ [.access (x.access s.bench.bus) true] := by
    rw [← hok]
    exact s.bench.trace_attempt (x.access s.bench.bus)
  have haccesses : (afterStage x s).bench.accesses = s.bench.accesses + 1 := rfl
  refine ⟨congrArg (x :: ·) h.stages, h.inFirstBank, ?_, h.core, h.chip, ?_, ?_, h.completed⟩
  · have hrest := h.trace
    rw [htrace, List.append_assoc] at hrest
    exact hrest
  · intro i y hy
    cases i with
    | zero =>
      cases hy
      exact hx
    | succ i =>
      have hsucceeded := h.succeeded i y hy
      rw [haccesses, Nat.add_assoc, Nat.add_comm 1 i] at hsucceeded
      exact hsucceeded
  · intro y hy
    obtain ⟨hfails, herror⟩ := h.failed y hy
    rw [haccesses, Nat.add_assoc, Nat.add_comm 1 done.length] at hfails
    exact ⟨hfails, herror⟩

/-- Stages are stored until the first access that fails. -/
theorem exists_stored (stages : List Stage) (hs : s.bench.InFirstBank) :
    ∃ done rest, Stored s stages done rest (exec (storeAll stages) s) := by
  induction stages generalizing s with
  | nil =>
    exact ⟨[], [], rfl, hs, (List.append_nil _).symm, rfl, rfl, by simp, by simp, fun _ => rfl⟩
  | cons x stages ih =>
    rw [storeAll_cons, exec_bind, exec_store hs]
    cases hx : s.bench.plan.failsAccess s.bench.accesses (x.access s.bench.bus) with
    | true => exact ⟨[], x :: stages, stored_of_fails hs stages hx⟩
    | false =>
      have hafter : (afterStage x s).bench.InFirstBank := hs
      obtain ⟨done, rest, h⟩ := ih hafter
      exact ⟨x :: done, rest, h.cons hx⟩

/-! ## After the stages -/

/-- What follows the stages logs nothing but waits and changes nothing else. -/
theorem exec_finish (waits : Settling) (s : System) :
    ∃ events, (∀ e ∈ events, e.isWait = true) ∧
      exec (finish waits) s = (.ok waits.settle, s.logAll events) := by
  unfold finish
  split
  · exact ⟨[.delay (.micros waits.pause.micros), .woke], by simp [Event.isWait],
      by rw [exec_bind, exec_sleep, System.wait_eq_logAll]; rfl⟩
  · exact ⟨[], by simp, by rw [System.logAll_nil]; rfl⟩

/-- Settling is waiting and never fails. -/
theorem exec_settle (d : Duration) (s : System) :
    ∃ events, (∀ e ∈ events, e.isWait = true) ∧
      exec (settle d) s = (.ok (), s.logAll events) := by
  unfold settle
  split
  · exact ⟨[.delay (.millis d.wholeMillis), .woke], by simp [Event.isWait],
      by rw [exec_sleep, System.wait_eq_logAll]⟩
  · exact ⟨[], by simp, by rw [System.logAll_nil]; rfl⟩

/-- A request that has been granted is granted again at once, and nothing is done for it. -/
theorem exec_grant_of_stages_nil {request : Request} (h : request.stages s.core.config = []) :
    exec (grant request) s = (.ok .zero, s) := by
  rw [exec_grant, h, request.goal_of_stages_nil h, Settling.between_self]
  rfl

end Driver

/-! ## What the log says of stages -/

namespace Stage

/-- A stage that succeeded has replaced one register. -/
theorem effect_access {b : Bench} (hb : b.InFirstBank) (x : Stage) :
    (Event.access (x.access b.bus) true).effect b.chip =
      (b.withMemory (b.chip.memory.write x.register.address x.value)).chip := by
  rcases hb with hbus | ⟨hbus, hbank⟩
  · rw [hbus]
    rfl
  · rw [hbus]
    obtain ⟨hreach, hselect⟩ := x.register.isRegular_write x.value
    have ha := hbank.trans x.register.bankOf_address.symm
    exact (RegisterOp.isDoneBy_write hreach hselect x.value b.chip ha).2

/-- A stage that succeeds writes its byte to its register. -/
theorem writes_access {b : Bench} (hb : b.InFirstBank) (x : Stage) :
    (Event.access (x.access b.bus) true).writes b.chip = [(x.register.address, x.value)] := by
  rcases hb with hbus | ⟨hbus, hbank⟩
  · rw [hbus]
    rfl
  · rw [hbus]
    obtain ⟨hreach, hselect⟩ := x.register.isRegular_write x.value
    have haddress := hreach.address_eq
    rw [x.register.bankOf_address] at haddress
    refine (b.chip.transactionWrites_write hreach.offset_lt hselect x.value).trans ?_
    rw [hbank, haddress]

/-- Stages that succeeded have replaced their registers, and their writes are what was written. -/
theorem replay_written {b : Bench} (hb : b.InFirstBank) (done : List Stage) :
    let events := done.map fun x => Event.access (x.access b.bus) true
    replay events b.chip = (b.withMemory (b.chip.memory.writeAll (written done))).chip ∧
      writes events b.chip = written done := by
  induction done generalizing b with
  | nil => exact ⟨rfl, rfl⟩
  | cons x done ih =>
    have hb' : (b.withMemory (b.chip.memory.write x.register.address x.value)).InFirstBank := hb
    obtain ⟨hreplay, hwrites⟩ := ih hb'
    intro events
    constructor
    · change replay _ ((Event.access (x.access b.bus) true).effect b.chip) = _
      rw [effect_access hb]
      exact hreplay
    · change Event.writes _ _ ++ writes _ _ = _
      rw [effect_access hb, writes_access hb]
      exact congrArg _ hwrites

end Stage

namespace Request

variable {request : Request} {c : DeviceConfig} {m : Memory}

/-- Registers that hold the configuration still do so after some of the stages. -/
theorem mirrors_reached (hm : ∀ r : ConfigRegister, m r.address = c.encode r)
    {done rest : List Stage} (h : request.stages c = done ++ rest) (r : ConfigRegister) :
    m.writeAll (Stage.written done) r.address = (Stage.reached c done).encode r := by
  induction done generalizing c m with
  | nil => exact hm r
  | cons x done ih =>
    have hfirst := request.isFirst h
    refine ih ?_ hfirst.stages_after
    intro t
    by_cases ht : t = x.register
    · rw [ht]
      exact Memory.write_same m _ _
    · have hne : t.address ≠ x.register.address :=
        fun ha => ht (ConfigRegister.address_injective ha)
      exact (Memory.write_of_ne m _ hne).trans ((hm t).trans (hfirst.others t ht).symm)

/-- The register of a stage holds something else before the stage. -/
theorem written_changes (hm : ∀ r : ConfigRegister, m r.address = c.encode r)
    {before after : List Stage} {x : Stage} (h : request.stages c = before ++ x :: after) :
    m.writeAll (Stage.written before) x.register.address ≠ x.value := by
  rw [request.mirrors_reached hm h]
  exact (request.isFirst (request.stages_reached h).1).changes.symm

end Request

end Inertial
