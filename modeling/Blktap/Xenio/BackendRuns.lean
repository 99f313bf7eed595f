import Blktap.Xenio.Backend

/-! # Runs of the backend daemon -/

namespace Blktap.Xenio
open Lib

namespace State
variable {s t : State} {key other : Key} {d e : Device} {calls : Calls} {n : Int} {committed : Bool} {path : String}

def Exists (s : State) (key : Key) (n : Int) : Prop := (s.store.entry key).bind (·.xenioSerial) = some n

instance (s : State) (key : Key) (n : Int) : Decidable (s.Exists key n) := inferInstanceAs (Decidable (_ = _))

def held (s : State) (key : Key) : Bool := ((s.device key).bind (·.bdev.gref)).isSome

structure Sound (s : State) : Prop where
  alive : s.aborted = false
  balanced : ∀ key, s.connects key = s.disconnects key + if s.held key then 1 else 0
  listed : ∀ key d, s.settled key = true → s.device key = some d → s.Exists key d.serial
  known : ∀ key n, s.issued key = some n → s.Exists key n ∧ ∃ d, s.device key = some d ∧ d.serial = n

def works (s : State) (key : Key) (calls : Calls) : Bool :=
  calls.memory && ((s.store.entry key).bind (·.frontend)).isSome && calls.serialWritten &&
    (s.maxRingPageOrder == 0 || calls.orderWritten) && (blkbackProbe calls).isSome && calls.watched

def early (s : State) (key : Key) (calls : Calls) : Bool :=
  !calls.memory || ((s.store.entry key).bind (·.frontend)).isNone || !calls.serialWritten

def Kept (s : State) (key : Key) : Prop :=
  ∀ d ∈ s.device key, ((s.store.entry key).isSome → s.Exists key d.serial) ∧
    (s.store.entry key = none → d.bdev.gref = none)

def Readable (front : Frontend) (calls : Calls) : Prop :=
  0 ≤ front.ringPageOrder.getD 0 ∧ front.ringPageOrder.getD 0 < 31 ∧
    (10 ≤ front.ringPageOrder.getD 0 → calls.grefMemory → ∃ i < 1000, front.ringRefs i = none)

def Handled (s : State) (d : Device) (state : Int) (calls : Calls) : Prop :=
  (state = xenbusStateInitialised ∨ state = xenbusStateConnected →
    (d.bdev.gref = none → Readable (s.front d.frontendPath) calls) ∧
    (d.bdev.gref ≠ none ∨ calls.tapConnected → calls.detach = .failed → calls.paramsWritten ∧ calls.stateWritten)) ∧
  (state = xenbusStateClosed → d.bdev.gref ≠ none → calls.detach ≠ .gone)

/-- An event for a frontend finds a device, whose ring can be read and whose tapdisk is there. A probe finds that the
listed device is the one in XenStore, or that it is not connected. -/
def Meets (s : State) : Event → Prop
  | .otherend path calls _ => ∃ d ∈ s.deviceAt path, ∀ text ∈ (s.front d.frontendPath).state,
      ∀ state ∈ text, s.Handled d state calls
  | .backend key calls committed => s.Kept key ∧
      (s.device key = none → (s.store.entry key).isSome → s.works key calls → committed)
  | .scan calls committed => (∀ d ∈ s.devices, s.Kept d.key) ∧
      ∀ key ∈ s.store.keys, (s.device key).isNone →
        if s.works key (calls key) then committed else committed → s.early key (calls key)
  | _ => True

structure Good (s : State) : Prop where
  alive : s.aborted = false
  nodup : (s.devices.map (·.key)).Nodup
  balanced : ∀ key, s.connects key = s.disconnects key + if s.held key then 1 else 0
  listed : ∀ key d, s.settled key = true → s.device key = some d → s.Exists key d.serial
  known : ∀ key n, s.issued key = some n → s.Exists key n ∧ ∃ d, s.device key = some d ∧ d.serial = n

theorem Good.sound (good : s.Good) : s.Sound := ⟨good.alive, good.balanced, good.listed, good.known⟩

structure Paired (s : State) : Prop where
  nodup : (s.devices.map (·.key)).Nodup
  balanced : ∀ key, s.connects key = s.disconnects key + if s.held key then 1 else 0

theorem Good.paired (good : s.Good) : s.Paired := ⟨good.nodup, good.balanced⟩

theorem device_key (found : s.device key = some d) : d.key = key := by
  simpa using List.find?_some found

theorem device_mem (found : s.device key = some d) : d ∈ s.devices := List.mem_of_find?_eq_some found

theorem find?_of_mem (devices : List Device) (nodup : (devices.map (·.key)).Nodup) (member : d ∈ devices) :
    devices.find? (·.key = d.key) = some d := by
  induction devices with
  | nil => cases member
  | cons first rest ih =>
      simp only [List.map_cons, List.nodup_cons] at nodup
      rcases List.mem_cons.mp member with rfl | member
      · simp
      · have apart : first.key ≠ d.key := fun same => nodup.1 (same ▸ List.mem_map_of_mem member)
        simpa [apart] using ih nodup.2 member

theorem Good.device_of_mem (good : s.Good) (member : d ∈ s.devices) : s.device d.key = some d :=
  find?_of_mem s.devices good.nodup member

theorem find?_setBdev (devices : List Device) (f : BlkbackDevice → BlkbackDevice) :
    (devices.map fun d => if d.key = key then { d with bdev := f d.bdev } else d).find? (·.key = other) =
      if other = key then (devices.find? (·.key = key)).map (fun d => { d with bdev := f d.bdev })
      else devices.find? (·.key = other) := by
  induction devices with
  | nil => simp
  | cons d devices ih =>
      by_cases same : d.key = key <;> by_cases here : other = key <;> by_cases mine : d.key = other <;>
        simp_all

theorem device_setBdev (s : State) (key other : Key) (f : BlkbackDevice → BlkbackDevice) : (s.setBdev key f).device other =
    if other = key then (s.device key).map (fun d => { d with bdev := f d.bdev }) else s.device other :=
  find?_setBdev s.devices f

theorem find?_eraseP (key other : Key) (devices : List Device) (nodup : (devices.map (·.key)).Nodup) :
    (devices.eraseP (·.key = key)).find? (·.key = other) =
      if other = key then none else devices.find? (·.key = other) := by
  induction devices with
  | nil => simp
  | cons d devices ih =>
      simp only [List.map_cons, List.nodup_cons] at nodup
      have rest := ih nodup.2
      by_cases same : d.key = key
      · subst same
        by_cases here : other = d.key
        · subst here
          simpa using fun e member same => nodup.1 (List.mem_map.mpr ⟨e, member, same⟩)
        · simp [here, Ne.symm here]
      · by_cases mine : d.key = other
        · subst mine
          simp [same]
        · simp [same, mine, rest]

theorem Paired.device_removeDevice (paired : s.Paired) : (s.removeDevice d).device other =
    if other = d.key then none else s.device other := find?_eraseP d.key other s.devices paired.nodup

theorem entry_set (store : Store) (entry : Option Entry) :
    (store.set key entry).entry other = if other = key then entry else store.entry other := by
  cases entry <;> simp [Store.set, Function.update_apply]

def Keeps (store next : Store) : Prop := ∀ key n, (store.entry key).bind (·.xenioSerial) = some n →
  (next.entry key).bind (·.xenioSerial) = some n

theorem keeps_write (store : Store) (f : Entry → Entry) (same : ∀ e, (f e).xenioSerial = e.xenioSerial) :
    Keeps store (store.write key f) := by
  intro other n present
  by_cases here : other = key
  · subst here
    cases found : store.entry other <;> simp_all [Store.write, entry_set]
  · simpa [Store.write, entry_set, here] using present

theorem Good.keeps {store : Store} (good : s.Good) (keeps : Keeps s.store store) : Good { s with store } where
  alive := good.alive
  nodup := good.nodup
  balanced := good.balanced
  listed key d settled found := keeps key d.serial (good.listed key d settled found)
  known key n issued := by
    obtain ⟨present, found⟩ := good.known key n issued
    exact ⟨keeps key n present, found⟩

theorem Paired.rewire (paired : s.Paired) (found : s.device key = some d) (f : BlkbackDevice → BlkbackDevice)
    (connects disconnects : Key → Nat)
    (others : ∀ other, other ≠ key → connects other = s.connects other ∧ disconnects other = s.disconnects other)
    (own : connects key = disconnects key + if (f d.bdev).gref.isSome then 1 else 0) :
    Paired { s.setBdev key f with connects, disconnects } where
  nodup := by
    have same : (s.setBdev key f).devices.map (·.key) = s.devices.map (·.key) := by
      simp only [State.setBdev, List.map_map]
      apply List.map_congr_left
      intro e _
      by_cases here : e.key = key <;> simp [here]
    change ((s.setBdev key f).devices.map (·.key)).Nodup
    rw [same]
    exact paired.nodup
  balanced other := by
    have device := device_setBdev s key other f
    change connects other = disconnects other + if (((s.setBdev key f).device other).bind (·.bdev.gref)).isSome then 1 else 0
    rw [device]
    by_cases here : other = key
    · subst here
      simpa [found] using own
    · rw [if_neg here, (others other here).1, (others other here).2]
      exact paired.balanced other

theorem Good.rewire (good : s.Good) (found : s.device key = some d) (f : BlkbackDevice → BlkbackDevice)
    (connects disconnects : Key → Nat)
    (others : ∀ other, other ≠ key → connects other = s.connects other ∧ disconnects other = s.disconnects other)
    (own : connects key = disconnects key + if (f d.bdev).gref.isSome then 1 else 0) :
    Good { s.setBdev key f with connects, disconnects } where
  alive := good.alive
  nodup := (good.paired.rewire found f connects disconnects others own).nodup
  balanced := (good.paired.rewire found f connects disconnects others own).balanced
  listed other e settled listed := by
    change (s.setBdev key f).device other = some e at listed
    rw [device_setBdev] at listed
    by_cases here : other = key
    · subst here
      simp only [if_true, found, Option.map_some, Option.some.injEq] at listed
      exact listed ▸ good.listed other d settled found
    · rw [if_neg here] at listed
      exact good.listed other e settled listed
  known other n issued := by
    obtain ⟨present, e, listed, serial⟩ := good.known other n issued
    refine ⟨present, ?_⟩
    change ∃ e, (s.setBdev key f).device other = some e ∧ e.serial = n
    rw [device_setBdev]
    by_cases here : other = key
    · subst here
      rw [if_pos rfl, listed]
      exact ⟨_, rfl, serial⟩
    · rw [if_neg here]
      exact ⟨e, listed, serial⟩

def Handles (s : State) (done : State × Bool) : Prop :=
  ∃ u : State, u.Good ∧ u.store = s.store ∧ u.issued = s.issued ∧
    ∃ store, Keeps s.store store ∧ done.1 = { u with store }

theorem Handles.finish {done : State × Bool} (handles : s.Handles done) : (s.finish done committed).Good := by
  obtain ⟨u, good, sameStore, sameIssued, store, keeps, result⟩ := handles
  unfold State.finish
  split
  · rw [result, ← sameStore, ← sameIssued]
    exact good
  · rw [result]
    exact good.keeps (sameStore ▸ keeps)

theorem Good.handles (good : s.Good) (failed : Bool) : s.Handles (s, failed) :=
  ⟨s, good, rfl, rfl, s.store, fun _ _ present => present, rfl⟩

theorem Good.switchState {u : State} {state : Nat} (good : u.Good) (sameStore : u.store = s.store)
    (sameIssued : u.issued = s.issued) : s.Handles (u.switchState key state calls) := by
  unfold State.switchState
  split
  · exact ⟨u, good, sameStore, sameIssued, _, sameStore ▸ keeps_write _ _ fun _ => rfl, rfl⟩
  · exact ⟨u, good, sameStore, sameIssued, u.store, sameStore ▸ fun _ _ present => present, rfl⟩

theorem Good.writeInfo {u : State} (good : u.Good) (found : u.device key = some e) (sameKey : d.key = key)
    (connected : e.bdev.gref ≠ none) (sameStore : u.store = s.store) (sameIssued : u.issued = s.issued)
    (detached : calls.detach = .failed → calls.paramsWritten ∧ calls.stateWritten) :
    s.Handles (u.writeInfo d calls) := by
  subst sameKey
  unfold State.writeInfo
  by_cases written : calls.paramsWritten && calls.stateWritten
  · rw [if_pos written]
    rw [Bool.and_eq_true] at written
    rw [State.switchState, if_pos written.2]
    refine ⟨u, good, sameStore, sameIssued, _, ?_, rfl⟩
    have params : Keeps u.store (u.store.write d.key fun e =>
        { e with params := some (d.bdev.sectorSize, d.bdev.sectors, d.bdev.info) }) := keeps_write _ _ fun _ => rfl
    rw [← sameStore]
    intro other n present
    refine keeps_write _ _ ?_ other n (params other n present)
    exact fun _ => rfl
  · rw [if_neg written]
    rw [Bool.and_eq_true] at written
    have called : calls.detach ≠ .failed := fun failed => written (detached failed)
    have held : u.held d.key = true := by simpa [State.held, found, Option.isSome_iff_ne_none] using connected
    have balanced := good.balanced d.key
    rw [if_pos held] at balanced
    refine ⟨_, good.rewire found (fun b => { b with gref := none }) u.connects
      (Function.update u.disconnects d.key (u.disconnects d.key + 1)) ?_ ?_, sameStore, sameIssued,
      u.store, sameStore ▸ fun _ _ present => present, ?_⟩
    · exact fun other away => ⟨rfl, Function.update_of_ne away _ _⟩
    · simpa using balanced
    · rw [State.callDetach, if_neg called]
      rfl

theorem readRefs_defined (front : Frontend) (left i : Nat) (bound : left + i ≤ 1000 ∨ ∃ j, i ≤ j ∧ j < 1000 ∧
    front.ringRefs j = none) : readRefs front left i ≠ .undefined := by
  induction left generalizing i with
  | zero => simp [readRefs]
  | succ left ih =>
      have small : ¬ 1000 ≤ i := by
        rcases bound with bound | ⟨j, after, before, -⟩ <;> omega
      rw [readRefs, if_neg small]
      cases here : front.ringRefs i with
      | none => simp
      | some ref =>
          have rest : readRefs front left (i + 1) ≠ .undefined := by
            apply ih
            rcases bound with bound | ⟨j, after, before, absent⟩
            · exact .inl (by omega)
            · have apart : i ≠ j := fun same => by
                rw [same, absent] at here
                cases here
              exact .inr ⟨j, by omega, before, absent⟩
          cases action : readRefs front left (i + 1) with
          | ok refs => simp [Outcome.bind]
          | error code => simp [Outcome.bind]
          | undefined => exact absurd action rest

theorem readRing_defined {front : Frontend} (readable : Readable front calls) : readRing front calls ≠ .undefined := by
  obtain ⟨low, high, short⟩ := readable
  have grefs : readGrefs front calls ≠ .undefined := by
    rw [readGrefs, if_neg (by omega)]
    by_cases memory : calls.grefMemory
    · by_cases one : front.ringPageOrder.getD 0 = 0
      · cases front.ringRef <;> simp [memory, one]
      · simp only [memory, Bool.not_true, Bool.false_eq_true, if_false, if_neg one]
        apply readRefs_defined
        by_cases large : 10 ≤ front.ringPageOrder.getD 0
        · obtain ⟨i, small, absent⟩ := short large memory
          exact .inr ⟨i, Nat.zero_le _, small, absent⟩
        · have pages : 2 ^ (front.ringPageOrder.getD 0).toNat ≤ 2 ^ 9 :=
            Nat.pow_le_pow_right (by decide) (by omega)
          exact .inl (by omega)
    · simp [memory]
  unfold readRing
  cases action : readGrefs front calls with
  | undefined => exact absurd action grefs
  | error code => simp [Outcome.bind]
  | ok refs =>
      cases port : front.eventChannel with
      | none => simp [Outcome.bind]
      | some port =>
          have proto : readProto front ≠ .undefined := by
            unfold readProto
            split <;> simp
          cases protocol : readProto front <;> simp_all [Outcome.bind]

theorem Good.connectTap (good : s.Good) (found : s.device d.key = some d)
    (readable : d.bdev.gref = none → Readable (s.front d.frontendPath) calls)
    (detached : d.bdev.gref ≠ none ∨ calls.tapConnected → calls.detach = .failed →
      calls.paramsWritten ∧ calls.stateWritten) : s.Handles (s.connectTap d calls) := by
  unfold State.connectTap
  cases gref : d.bdev.gref with
  | some refs =>
      have connected : d.bdev.gref ≠ none := by simp [gref]
      exact good.writeInfo found rfl connected rfl rfl (detached (.inl connected))
  | none =>
      cases action : readRing (s.front d.frontendPath) calls with
      | undefined => exact absurd action (readRing_defined (readable gref))
      | error code => exact good.handles true
      | ok ring =>
          obtain ⟨refs, port⟩ := ring
          by_cases connected : calls.tapConnected
          · simp only [if_pos connected]
            have held : s.held d.key = false := by simp [State.held, found, gref]
            have balanced := good.balanced d.key
            simp only [held, Bool.false_eq_true, if_false, Nat.add_zero] at balanced
            have next := good.rewire found (fun b => { b with gref := some refs, port })
              (Function.update s.connects d.key (s.connects d.key + 1)) s.disconnects
              (fun other away => ⟨Function.update_of_ne away _ _, rfl⟩) (by simp [balanced])
            have listed : (s.attach d.key refs port).device d.key =
                some { d with bdev := { d.bdev with gref := some refs, port } } := by
              have device := device_setBdev s d.key d.key fun b => { b with gref := some refs, port }
              rw [if_pos rfl, found] at device
              exact device
            exact Good.writeInfo (u := s.attach d.key refs port) next listed rfl (by simp) rfl rfl
              (detached (.inr connected))
          · simp only [if_neg connected]
            exact good.handles true

theorem Good.disconnectTap (good : s.Good) (found : s.device d.key = some d)
    (present : d.bdev.gref ≠ none → calls.detach ≠ .gone) : s.Handles (s.disconnectTap d calls) := by
  unfold State.disconnectTap
  cases gref : d.bdev.gref with
  | none => exact good.handles false
  | some refs =>
      have here := present (by simp [gref])
      cases detach : calls.detach with
      | gone => exact absurd detach here
      | failed => simpa [State.callDetach, detach] using good.handles true
      | done =>
          have held : s.held d.key = true := by simp [State.held, found, gref]
          have balanced := good.balanced d.key
          rw [if_pos held] at balanced
          have next := good.rewire found (fun b => { b with gref := none, port := 2 ^ 32 - 1 }) s.connects
            (Function.update s.disconnects d.key (s.disconnects d.key + 1))
            (fun other away => ⟨rfl, Function.update_of_ne away _ _⟩) (by simpa using balanced)
          simp only [State.callDetach, detach, reduceCtorEq, if_false, ne_eq, not_true]
          exact Good.switchState next rfl rfl

theorem Good.handleOtherend (good : s.Good) (meets : s.Meets (.otherend path calls committed)) :
    s.Handles (s.handleOtherend path calls) := by
  obtain ⟨d, at', handled⟩ := meets
  have found := good.device_of_mem (List.mem_of_find?_eq_some at')
  have at'' : s.deviceAt path = some d := at'
  simp only [State.handleOtherend, at'', State.checkFrontendState]
  cases text : (s.front d.frontendPath).state with
  | none => exact good.handles true
  | some text' =>
      cases number : text' with
      | none => exact good.handles true
      | some state =>
          obtain ⟨connects, closes⟩ := handled text' text state number
          simp only [State.frontendChanged]
          split
          · exact good.switchState rfl rfl
          · split
            · rename_i ready
              exact good.connectTap found (connects ready).1 (connects ready).2
            · split
              · exact good.switchState rfl rfl
              · split
                · rename_i closed
                  exact good.disconnectTap found (closes closed)
                · exact good.handles false

structure Records (s : State) (key : Key) (store : Store) : Prop where
  others : ∀ other, other ≠ key → store.entry other = s.store.entry other
  own : ∃ e, store.entry key = some e ∧ e.xenioSerial = some s.serial ∧
    some e.frontend = (s.store.entry key).map (·.frontend)

theorem records_writeSerial (there : (s.store.entry key).isSome) :
    s.Records key (s.store.write key fun e => { e with xenioSerial := some s.serial }) := by
  obtain ⟨e, found⟩ := Option.isSome_iff_exists.mp there
  constructor
  · intro other away
    simp [Store.write, entry_set, away]
  · exact ⟨{ e with xenioSerial := some s.serial }, by simp [Store.write, entry_set, found]⟩

theorem Records.writeOrder {store : Store} (records : s.Records key store) (order : Nat) :
    s.Records key (store.write key fun e => { e with maxRingPageOrder := some order }) := by
  obtain ⟨others, e, found, serial, frontend⟩ := records
  constructor
  · intro other away
    simpa [Store.write, entry_set, away] using others other away
  · exact ⟨{ e with maxRingPageOrder := some order }, by simp [Store.write, entry_set, found], serial, frontend⟩

theorem createDevice_cases (calls : Calls) (there : (s.store.entry key).isSome) :
    (s.early key calls = true ∧ s.works key calls = false ∧ ∃ serial, s.createDevice key calls = ({ s with serial }, true)) ∨
    (s.early key calls = false ∧ s.works key calls = false ∧ ∃ store, s.Records key store ∧ s.createDevice key calls =
      ({ s with serial := s.serial + 1, store, issued := Function.update s.issued key (some s.serial) }, true)) ∨
    (s.works key calls = true ∧ ∃ store frontendPath bdev, s.Records key store ∧ bdev.gref = none ∧
      s.createDevice key calls =
        ({ s with
            serial := s.serial + 1
            store
            issued := Function.update s.issued key (some s.serial)
            devices := s.devices ++ [⟨key, s.serial, frontendPath, bdev⟩] }, false)) := by
  have first := records_writeSerial there
  unfold State.early State.works State.createDevice
  cases memory : calls.memory with
  | false => exact .inl ⟨by simp, by simp, s.serial, by simp⟩
  | true =>
    cases frontend : (s.store.entry key).bind (·.frontend) with
    | none => exact .inl ⟨by simp, by simp, s.serial + 1, by simp⟩
    | some frontendPath =>
      cases serial : calls.serialWritten with
      | false => exact .inl ⟨by simp, by simp, s.serial + 1, by simp⟩
      | true =>
        by_cases noOrder : s.maxRingPageOrder ≠ 0 ∧ calls.orderWritten = false
        · refine .inr (.inl ⟨by simp, by simp [noOrder.1, noOrder.2], _, first, ?_⟩)
          simp [noOrder.1, noOrder.2, State.writeSerial]
        · have orderly : (s.maxRingPageOrder == 0 || calls.orderWritten) = true := by
            by_cases zero : s.maxRingPageOrder = 0
            · simp [zero]
            · simpa [zero] using noOrder
          have passes : (s.maxRingPageOrder ≠ 0 && !calls.orderWritten) = false := by
            by_cases zero : s.maxRingPageOrder = 0
            · simp [zero]
            · simpa [zero] using noOrder
          obtain ⟨store, records, ordered⟩ : ∃ store, s.Records key store ∧
              (if s.maxRingPageOrder ≠ 0 then (writeSerial { s with serial := s.serial + 1 } key s.serial).writeOrder key
                else writeSerial { s with serial := s.serial + 1 } key s.serial) =
              { s with serial := s.serial + 1, store, issued := Function.update s.issued key (some s.serial) } := by
            by_cases zero : s.maxRingPageOrder = 0
            · exact ⟨_, first, by simp [zero, State.writeSerial]⟩
            · exact ⟨_, first.writeOrder s.maxRingPageOrder, by simp [zero, State.writeSerial, State.writeOrder]⟩
          simp only [Bool.not_true, Bool.false_eq_true, if_false, passes, ordered]
          cases probed : blkbackProbe calls with
          | none => exact .inr (.inl ⟨by simp, by simp, store, records, rfl⟩)
          | some bdev =>
            cases watched : calls.watched with
            | false => exact .inr (.inl ⟨by simp, by simp, store, records, rfl⟩)
            | true =>
              refine .inr (.inr ⟨by simpa using orderly, store, frontendPath, bdev, records, ?_, by simp⟩)
              unfold blkbackProbe at probed
              obtain ⟨devid, -, probed⟩ := Option.bind_eq_some_iff.mp probed
              obtain ⟨tap, -, probed⟩ := Option.map_eq_some_iff.mp probed
              exact probed ▸ rfl

def target (s t : State) (committed : Bool) : State :=
  if committed then t else { t with store := s.store, issued := s.issued }

structure Probing (scope : Key → Prop) (s t : State) (calls : Key → Calls) (committed : Bool) : Prop where
  good : (s.target t committed).Good
  kept : ∀ key, scope key → ∀ d, t.device key = some d → (t.store.entry key).isSome →
    t.Exists key d.serial ∧ (s.target t committed).Exists key d.serial
  gone : ∀ key, scope key → ∀ d, t.device key = some d → t.store.entry key = none →
    d.bdev.gref = none ∧ (s.target t committed).store.entry key = none
  fresh : ∀ key, scope key → t.device key = none → (t.store.entry key).isSome →
    if t.works key (calls key) then committed = true else committed = true → t.early key (calls key) = true

theorem target_devices : (s.target t committed).devices = t.devices := by cases committed <;> rfl

theorem target_device : (s.target t committed).device key = t.device key := by cases committed <;> rfl

theorem target_aborted : (s.target t committed).aborted = t.aborted := by cases committed <;> rfl

theorem Good.settle (good : s.Good) (looked : ∀ d, s.device key = some d → s.Exists key d.serial) :
    Good { s with settled := Function.update s.settled key true } where
  alive := good.alive
  nodup := good.nodup
  balanced := good.balanced
  listed other d settled found := by
    by_cases here : other = key
    · subst here
      exact looked d found
    · have same : Function.update s.settled key true other = s.settled other := Function.update_of_ne here _ _
      exact good.listed other d (same.symm.trans settled) found
  known := good.known

theorem Paired.removeDevice (paired : s.Paired) (found : s.device d.key = some d) (idle : d.bdev.gref = none) :
    (s.removeDevice d).Paired where
  nodup := paired.nodup.sublist ((List.eraseP_sublist).map _)
  balanced other := by
    have balanced := paired.balanced other
    have held : (s.removeDevice d).held other = s.held other := by
      by_cases here : other = d.key
      · subst here
        simp [State.held, paired.device_removeDevice, found, idle]
      · simp [State.held, paired.device_removeDevice, here]
    rw [held]
    exact balanced

theorem Good.removeDevice (good : s.Good) (found : s.device d.key = some d) (idle : d.bdev.gref = none)
    (gone : s.store.entry d.key = none) : (s.removeDevice d).Good where
  alive := good.alive
  nodup := (good.paired.removeDevice found idle).nodup
  balanced := (good.paired.removeDevice found idle).balanced
  listed other e settled listed := by
    rw [good.paired.device_removeDevice] at listed
    by_cases here : other = d.key
    · rw [if_pos here] at listed
      cases listed
    · rw [if_neg here] at listed
      exact good.listed other e settled listed
  known other n issued := by
    obtain ⟨present, e, listed, serial⟩ := good.known other n issued
    refine ⟨present, e, ?_, serial⟩
    have here : other ≠ d.key := by
      rintro rfl
      have absent := present
      simp only [State.Exists, gone, Option.bind_none] at absent
      cases absent
    rw [good.paired.device_removeDevice, if_neg here, listed]

theorem device_append (s : State) (d : Device) (away : s.device d.key = none) (other : Key) :
    (s.devices ++ [d]).find? (·.key = other) = if other = d.key then some d else s.device other := by
  rw [List.find?_append]
  by_cases here : other = d.key
  · subst here
    have absent : s.devices.find? (·.key = d.key) = none := away
    simp [absent]
  · cases found : s.device other <;> simp_all [State.device, Ne.symm here]

theorem Paired.append {store : Store} {serial : Int} {issued : Key → Option Int} (paired : s.Paired)
    (away : s.device d.key = none) (idle : d.bdev.gref = none) :
    Paired { s with serial, store, issued, devices := s.devices ++ [d] } where
  nodup := by
    rw [List.map_append, List.nodup_append]
    refine ⟨paired.nodup, by simp, fun key member other own same => ?_⟩
    obtain ⟨e, listed, rfl⟩ := List.mem_map.mp member
    have absent := List.find?_eq_none.mp away e listed
    simp_all
  balanced other := by
    have balanced := paired.balanced other
    change s.connects other = s.disconnects other +
      if (((s.devices ++ [d]).find? (·.key = other)).bind (·.bdev.gref)).isSome then 1 else 0
    rw [device_append s d away]
    by_cases here : other = d.key
    · subst here
      simpa [idle, State.held, away] using balanced
    · rw [if_neg here]
      exact balanced

theorem Good.created {store : Store} (good : s.Good) (away : s.device d.key = none) (records : s.Records d.key store)
    (serial : d.serial = s.serial) (idle : d.bdev.gref = none) :
    Good { s with
      serial := s.serial + 1
      store
      issued := Function.update s.issued d.key (some s.serial)
      devices := s.devices ++ [d] } where
  alive := good.alive
  nodup := (good.paired.append away idle).nodup
  balanced := (good.paired.append away idle).balanced
  listed other e settled listed := by
    change (s.devices ++ [d]).find? (·.key = other) = some e at listed
    rw [device_append s d away] at listed
    change (store.entry other).bind (·.xenioSerial) = some e.serial
    by_cases here : other = d.key
    · subst here
      rw [if_pos rfl] at listed
      cases listed
      obtain ⟨entry, found, own, -⟩ := records.own
      rw [found, Option.bind_some, own, serial]
    · rw [if_neg here] at listed
      rw [records.others other here]
      exact good.listed other e settled listed
  known other n issued := by
    change Function.update s.issued d.key (some s.serial) other = some n at issued
    change (store.entry other).bind (·.xenioSerial) = some n ∧
      ∃ e, (s.devices ++ [d]).find? (·.key = other) = some e ∧ e.serial = n
    rw [device_append s d away]
    by_cases here : other = d.key
    · subst here
      rw [Function.update_self] at issued
      obtain ⟨entry, found, own, -⟩ := records.own
      exact ⟨by rw [found, Option.bind_some, own, issued], d, by simp, serial.trans (Option.some.inj issued)⟩
    · rw [Function.update_of_ne here] at issued
      rw [records.others other here, if_neg here]
      exact good.known other n issued

section probing
variable {asked : Key → Calls} {scope : Key → Prop}

theorem Probing.settle (probing : Probing scope s t asked committed)
    (looked : ∀ d, t.device key = some d → (s.target t committed).Exists key d.serial) :
    Probing scope s { t with settled := Function.update t.settled key true } asked committed := by
  have good := probing.good.settle fun d found => looked d (target_device.symm.trans found)
  have kept := probing.kept
  have gone := probing.gone
  cases committed with
  | true => exact ⟨good, kept, gone, probing.fresh⟩
  | false => exact ⟨good, kept, gone, probing.fresh⟩

theorem Probing.early (probing : Probing scope s t asked committed) (serial : Int) :
    Probing scope s { t with serial } asked committed := by
  obtain ⟨good, kept, gone, fresh⟩ := probing
  cases committed with
  | true => exact ⟨⟨good.alive, good.nodup, good.balanced, good.listed, good.known⟩, kept, gone, fresh⟩
  | false => exact ⟨⟨good.alive, good.nodup, good.balanced, good.listed, good.known⟩, kept, gone, fresh⟩

theorem Records.frontend {store : Store} (records : t.Records key store) (there : (t.store.entry key).isSome)
    (other : Key) : (store.entry other).bind (·.frontend) = (t.store.entry other).bind (·.frontend) := by
  by_cases here : other = key
  · subst here
    obtain ⟨e, found, -, frontend⟩ := records.own
    obtain ⟨old, known⟩ := Option.isSome_iff_exists.mp there
    rw [known, Option.map_some] at frontend
    rw [found, known]
    exact Option.some.inj frontend
  · rw [records.others other here]

theorem Records.isSome {store : Store} (records : t.Records key store) (there : (t.store.entry key).isSome)
    (other : Key) : (store.entry other).isSome = (t.store.entry other).isSome := by
  by_cases here : other = key
  · subst here
    obtain ⟨e, found, -⟩ := records.own
    rw [found, there]
    rfl
  · rw [records.others other here]

theorem works_congr {t : State} (u : State) (calls : Calls) (frontend : (u.store.entry key).bind (·.frontend) = (t.store.entry key).bind (·.frontend))
    (order : u.maxRingPageOrder = t.maxRingPageOrder) :
    u.works key calls = t.works key calls ∧ u.early key calls = t.early key calls := by
  simp [State.works, State.early, frontend, order]

theorem Probing.late {store : Store} (probing : Probing scope s t asked false) (away : t.device key = none)
    (there : (t.store.entry key).isSome) (records : t.Records key store) (issued : Key → Option Int) (serial : Int) :
    Probing scope s { t with serial, store, issued } asked false := by
  obtain ⟨good, kept, gone, fresh⟩ := probing
  have apart : ∀ {other d}, t.device other = some d → other ≠ key := by
    rintro other d found rfl
    cases away.symm.trans found
  refine ⟨⟨good.alive, good.nodup, good.balanced, good.listed, good.known⟩, ?_, ?_, ?_⟩
  · intro other within d found present
    have same := records.others other (apart found)
    obtain ⟨now, final⟩ := kept other within d found ((congrArg Option.isSome same).symm.trans present)
    refine ⟨?_, final⟩
    change (store.entry other).bind _ = _
    rw [same]
    exact now
  · intro other within d found absent
    exact gone other within d found ((records.others other (apart found)).symm.trans absent)
  · intro other within lost present
    have before := fresh other within lost ((records.isSome there other).symm.trans present)
    obtain ⟨works, early⟩ := works_congr { t with serial, store, issued } (asked other)
      (records.frontend there other) rfl
    rwa [works, early]

theorem Probing.created {store : Store} {bdev : BlkbackDevice} (probing : Probing scope s t asked true) (frontendPath : String)
    (away : t.device key = none) (there : (t.store.entry key).isSome) (records : t.Records key store)
    (idle : bdev.gref = none) :
    Probing scope s { t with
      serial := t.serial + 1
      store
      issued := Function.update t.issued key (some t.serial)
      devices := t.devices ++ [⟨key, t.serial, frontendPath, bdev⟩] } asked true := by
  obtain ⟨good, kept, gone, fresh⟩ := probing
  have listed := device_append t ⟨key, t.serial, frontendPath, bdev⟩ away
  refine ⟨good.created away records rfl idle, ?_, ?_, ?_⟩
  · intro other within d found present
    have found' := (listed other).symm.trans found
    suffices (store.entry other).bind (·.xenioSerial) = some d.serial from ⟨this, this⟩
    by_cases here : other = key
    · subst here
      rw [if_pos rfl] at found'
      cases found'
      obtain ⟨e, entry, serial, -⟩ := records.own
      rw [entry, Option.bind_some, serial]
    · rw [if_neg here] at found'
      rw [records.others other here]
      exact (kept other within d found' ((congrArg Option.isSome (records.others other here)).symm.trans present)).1
  · intro other within d found absent
    have found' := (listed other).symm.trans found
    by_cases here : other = key
    · subst here
      obtain ⟨e, entry, -⟩ := records.own
      cases entry.symm.trans absent
    · rw [if_neg here] at found'
      exact ⟨(gone other within d found' ((records.others other here).symm.trans absent)).1, absent⟩
  · intro other within lost present
    have lost' := (listed other).symm.trans lost
    by_cases here : other = key
    · rw [if_pos here] at lost'
      cases lost'
    · rw [if_neg here] at lost'
      have before := fresh other within lost' ((records.isSome there other).symm.trans present)
      obtain ⟨works, early⟩ := works_congr { t with
          serial := t.serial + 1
          store
          issued := Function.update t.issued key (some t.serial)
          devices := t.devices ++ [⟨key, t.serial, frontendPath, bdev⟩] } (asked other)
        (records.frontend there other) rfl
      rwa [works, early]

theorem Probing.removed (probing : Probing scope s t asked committed) (inside : scope d.key) (found : t.device d.key = some d)
    (absent : t.store.entry d.key = none) : Probing scope s (t.removeDevice d) asked committed := by
  obtain ⟨good, kept, gone, fresh⟩ := probing
  obtain ⟨idle, empty⟩ := gone d.key inside d found absent
  have left := fun other => find?_eraseP d.key other t.devices (target_devices ▸ good.nodup)
  have next := good.removeDevice (target_device.trans found) idle empty
  have others : ∀ {other e}, (t.removeDevice d).device other = some e → t.device other = some e := by
    intro other e found
    have found' := (left other).symm.trans found
    by_cases here : other = d.key
    · rw [if_pos here] at found'
      cases found'
    · rwa [if_neg here] at found'
  have away : ∀ other, (t.removeDevice d).device other = none → (t.store.entry other).isSome → t.device other = none := by
    intro other lost present
    have lost' := (left other).symm.trans lost
    by_cases here : other = d.key
    · rw [here, absent] at present
      cases present
    · rwa [if_neg here] at lost'
  cases committed with
  | true => exact ⟨next, fun other within e found present => kept other within e (others found) present,
      fun other within e found absent => gone other within e (others found) absent,
      fun other within lost present => fresh other within (away other lost present) present⟩
  | false => exact ⟨next, fun other within e found present => kept other within e (others found) present,
      fun other within e found absent => gone other within e (others found) absent,
      fun other within lost present => fresh other within (away other lost present) present⟩

theorem Probing.probe (probing : Probing scope s t asked committed) (key : Key) (inside : scope key) :
    Probing scope s (t.probe key (asked key)).1 asked committed := by
  have absent : ∀ {u : State}, u.device key = none →
      ∀ d, u.device key = some d → (s.target u committed).Exists key d.serial := by
    intro u away d found
    cases away.symm.trans found
  unfold State.probe State.probeDevice
  cases found : t.device key with
  | none =>
      cases there : (t.store.entry key).isSome with
      | false => exact probing.settle (absent found)
      | true =>
          have fresh := probing.fresh key inside found there
          rcases createDevice_cases (asked key) there with
            ⟨-, -, serial, action⟩ | ⟨late, fails, store, records, action⟩ |
            ⟨works, store, frontendPath, bdev, records, idle, action⟩
          · simp only [action]
            exact (probing.early serial).settle (absent found)
          · rw [fails, late] at fresh
            cases committed with
            | true => simp at fresh
            | false =>
                simp only [action]
                exact (probing.late found there records _ _).settle (absent found)
          · rw [works, if_pos rfl] at fresh
            subst fresh
            simp only [action]
            have next := probing.created frontendPath found there records idle
            refine next.settle fun d listed => ?_
            obtain ⟨e, entry, -⟩ := records.own
            exact (next.kept key inside d listed (entry ▸ rfl)).1
  | some d =>
      have own := device_key found
      subst own
      cases there : (t.store.entry d.key).isSome with
      | false =>
          have gone : t.store.entry d.key = none := by simpa using there
          refine (probing.removed inside found gone).settle (absent ?_)
          have left := find?_eraseP d.key d.key t.devices (target_devices ▸ probing.good.nodup)
          exact left.trans (if_pos rfl)
      | true =>
          obtain ⟨now, final⟩ := probing.kept d.key inside d found there
          have serial : t.checkSerial d = true := decide_eq_true now
          simp only [if_pos serial]
          refine probing.settle fun e listed => ?_
          cases found.symm.trans listed
          exact final

theorem Probing.loop (probing : Probing scope s t asked committed) (all : ∀ key, scope key) (keys : List Key) :
    Probing scope s (keys.foldl (fun s key => if s.aborted then s else (s.probe key (asked key)).1) t) asked committed := by
  induction keys generalizing t with
  | nil => exact probing
  | cons key keys ih =>
      apply ih
      have alive : t.aborted = false := target_aborted.symm.trans probing.good.alive
      simpa only [alive, Bool.false_eq_true, if_false] using probing.probe key (all key)

end probing

theorem finish_eq (done : State × Bool) : s.finish done committed = s.target done.1 (!done.2 && committed) := by
  cases fails : done.2 <;> cases committed <;> simp [State.finish, State.target, fails]

theorem Good.probing (scope : Key → Prop) (asked : Key → Calls) (committed : Bool) (good : s.Good)
    (kept : ∀ key, scope key → s.Kept key)
    (fresh : ∀ key, scope key → s.device key = none → (s.store.entry key).isSome →
      if s.works key (asked key) then committed = true else committed = true → s.early key (asked key) = true) :
    Probing scope s s asked committed := by
  have same : s.target s committed = s := by cases committed <;> rfl
  refine ⟨same.symm ▸ good, fun key within d found there => ?_, fun key within d found gone => ?_, fresh⟩
  · rw [same]
    exact ⟨(kept key within d found).1 there, (kept key within d found).1 there⟩
  · rw [same]
    exact ⟨(kept key within d found).2 gone, gone⟩

theorem probe_failed (away : s.device key = none) (there : (s.store.entry key).isSome) :
    (s.probe key calls).2 = !s.works key calls := by
  have probed : (s.probe key calls).2 = (s.createDevice key calls).2 := by
    simp only [State.probe, State.probeDevice, away, there]
  rw [probed]
  rcases createDevice_cases calls there with ⟨-, fails, serial, action⟩ | ⟨-, fails, store, records, action⟩ |
    ⟨works, store, frontendPath, bdev, records, idle, action⟩
  · simp [action, fails]
  · simp [action, fails]
  · simp [action, works]

theorem Good.backend (good : s.Good) (meets : s.Meets (.backend key calls committed)) :
    (s.finish (s.probe key calls) committed).Good := by
  obtain ⟨kept, creates⟩ := meets
  have probing := good.probing (· = key) (fun _ => calls) (!(s.probe key calls).2 && committed)
    (fun other same => same ▸ kept) (by
      rintro other rfl away there
      rw [probe_failed away there]
      cases works : s.works other calls with
      | true => simp [creates away there works]
      | false => simp)
  rw [finish_eq]
  exact (probing.probe key rfl).good

theorem Good.scan {asked : Key → Calls} (good : s.Good) (meets : s.Meets (.scan asked committed)) :
    (s.finish (s.scan asked, false) committed).Good := by
  obtain ⟨kept, creates⟩ := meets
  have probing := good.probing (fun _ => True) asked committed
    (fun key _ d found => by
      have own := device_key found
      exact own ▸ kept d (device_mem found) d (own ▸ found))
    (fun key _ away there => creates key ((s.store.complete key).mpr (Option.ne_none_iff_isSome.mpr there))
      (by simp [away]))
  rw [finish_eq]
  exact ((probing.loop (fun _ => trivial) _).loop (fun _ => trivial) _).good

theorem Good.toolstack {entry : Option Entry} (good : s.Good) : (s.toolstack key entry).Good where
  alive := good.alive
  nodup := good.nodup
  balanced := good.balanced
  listed other d settled found := by
    by_cases here : other = key
    · simp [State.toolstack, here] at settled
    · have known := good.listed other d (by simpa [State.toolstack, here] using settled) found
      simpa [State.Exists, State.toolstack, entry_set, here] using known
  known other n issued := by
    by_cases here : other = key
    · simp [State.toolstack, here] at issued
    · have known := good.known other n (by simpa [State.toolstack, here] using issued)
      simpa [State.Exists, State.device, State.toolstack, entry_set, here] using known

theorem Good.step {event : Event} (good : s.Good) (meets : s.Meets event) (action : step s event = some t) : t.Good := by
  cases event with
  | toolstack key entry =>
      cases action
      exact good.toolstack
  | guest path front =>
      cases action
      exact ⟨good.alive, good.nodup, good.balanced, good.listed, good.known⟩
  | otherend path calls committed =>
      simp only [Xenio.step, good.alive, Bool.false_eq_true, if_false, Option.some.injEq] at action
      exact action ▸ (good.handleOtherend meets).finish
  | backend key calls committed =>
      simp only [Xenio.step, good.alive, Bool.false_eq_true, if_false, Option.some.injEq] at action
      exact action ▸ good.backend meets
  | scan calls committed =>
      simp only [Xenio.step, good.alive, Bool.false_eq_true, if_false, Option.some.injEq] at action
      exact action ▸ good.scan meets

instance (s : State) (key : Key) : Decidable (s.Kept key) :=
  inferInstanceAs (Decidable (∀ d ∈ s.device key, (_ → _) ∧ (s.store.entry key = none → _)))

instance (front : Frontend) (calls : Calls) : Decidable (Readable front calls) :=
  inferInstanceAs (Decidable (_ ∧ _ ∧ (_ → _ → ∃ i, i < 1000 ∧ _)))

instance (s : State) (d : Device) (state : Int) (calls : Calls) : Decidable (s.Handled d state calls) :=
  inferInstanceAs (Decidable ((_ → (_ → _) ∧ (_ → _ → _)) ∧ (_ → _ → _)))

instance (s : State) : (event : Event) → Decidable (s.Meets event)
  | .otherend path calls _ => inferInstanceAs (Decidable (∃ d ∈ s.deviceAt path,
      ∀ text ∈ (s.front d.frontendPath).state, ∀ state ∈ text, s.Handled d state calls))
  | .backend _ _ _ => inferInstanceAs (Decidable (_ ∧ (_ → _ → _ → _)))
  | .scan _ _ => inferInstanceAs (Decidable ((∀ d ∈ _, _) ∧ ∀ key ∈ _, _))
  | .toolstack _ _ | .guest _ _ => .isTrue trivial

def fine : Calls := ⟨true, true, true, some 51712, some [⟨7, 0⟩], some (8, 512), true, true, true, true, true, .done⟩

def disk : Key := ⟨1, "51712"⟩

def made : Entry := { Entry.empty with frontend := some "device" }

def frontend (state : Int) : Frontend :=
  { Frontend.empty with state := some (some state), ringRef := some 8, eventChannel := some 3 }

end State
end Blktap.Xenio
