import Blktap.Xenio.BackendRuns

/-! # Connections of the frontends -/

namespace Blktap.Xenio
open Lib

namespace State

def fillRefs (front : Frontend) : Nat → Nat → List Nat → Outcome (List Nat)
  | 0, _, gref => .ok gref
  | left + 1, i, gref =>
    if 1000 ≤ i then .undefined
    else
      match front.ringRefs i with
      | none => .error 2
      | some ref => if i < gref.length then fillRefs front left (i + 1) (gref.set i ref) else .undefined

def fillGrefs (front : Frontend) (calls : Calls) : Outcome (List Nat) :=
  let order := front.ringPageOrder.getD 0
  if order < 0 ∨ 31 ≤ order then .undefined
  else if !calls.grefMemory then .error 12
  else
    let gref := List.replicate (2 ^ order.toNat) 0
    if order = 0 then
      match front.ringRef with
      | none => .error 2
      | some ref => if 0 < gref.length then .ok (gref.set 0 ref) else .undefined
    else fillRefs front (2 ^ order.toNat) 0 gref

def InOrder (own : Option Nat) (next : Nat) : Prop := ∀ state ∈ own, state ≤ next ∨ state = xenbusStateClosed

instance (own : Option Nat) (next : Nat) : Decidable (InOrder own next) :=
  inferInstanceAs (Decidable (∀ state ∈ own, _))

variable {s t u : State} {key other : Key} {d : Device} {calls : Calls} {committed : Bool} {path : String}

def ownState (s : State) (key : Key) : Option Nat := (s.store.entry key).bind (·.state)

def Attaches (s : State) (d : Device) (calls : Calls) : Prop :=
  d.bdev.gref ≠ none ∨ calls.tapConnected = true ∧ ∃ ring, readRing (s.front d.frontendPath) calls = .ok ring

structure Orderly (s : State) (d : Device) (state : Int) (calls : Calls) (committed : Bool) : Prop where
  initialising : state = xenbusStateInitialising → calls.stateWritten = true → committed = true →
    InOrder (s.ownState d.key) xenbusStateInitWait
  readable : state = xenbusStateInitialised ∨ state = xenbusStateConnected → d.bdev.gref = none →
    Readable (s.front d.frontendPath) calls
  detached : state = xenbusStateInitialised ∨ state = xenbusStateConnected → s.Attaches d calls →
    calls.detach = .failed → calls.paramsWritten = true ∧ calls.stateWritten = true
  connected : state = xenbusStateInitialised ∨ state = xenbusStateConnected → s.Attaches d calls →
    calls.paramsWritten = true → calls.stateWritten = true → committed = true →
    InOrder (s.ownState d.key) xenbusStateConnected
  closing : state = xenbusStateClosing → calls.stateWritten = true → committed = true →
    InOrder (s.ownState d.key) xenbusStateClosing
  present : state = xenbusStateClosed → d.bdev.gref ≠ none → calls.detach ≠ .gone
  closed : state = xenbusStateClosed → d.bdev.gref ≠ none → calls.stateWritten = true → committed = true →
    InOrder (s.ownState d.key) xenbusStateClosed

def Proper (s : State) : Event → Prop
  | .otherend path calls committed => ∀ d ∈ s.deviceAt path, ∀ text ∈ (s.front d.frontendPath).state,
      ∀ state ∈ text, s.Orderly d state calls committed
  | .backend key _ _ => ∀ d ∈ s.device key, s.store.entry key = none → d.bdev.gref = none
  | .scan _ _ => ∀ d ∈ s.devices, s.store.entry d.key = none → d.bdev.gref = none
  | _ => True

structure Follows (s t : State) : Prop where
  connected : ∀ key, s.connects key ≠ t.connects key →
    s.connects key = s.disconnects key ∧ t.connects key = s.connects key + 1
  freed : ∀ key, (s.device key).isSome = true → t.device key = none → t.connects key = t.disconnects key
  once : ∀ key, t.disconnects key ≤ t.connects key ∧ t.connects key ≤ t.disconnects key + 1

def Fits (s : State) : Event → Prop
  | .otherend path calls _ => ∀ d ∈ s.deviceAt path, d.bdev.gref = none →
      (s.front d.frontendPath).state = some (some xenbusStateInitialised) ∨
        (s.front d.frontendPath).state = some (some (xenbusStateConnected : Int)) →
      fillGrefs (s.front d.frontendPath) calls ≠ .undefined
  | _ => True

def Switches (s t : State) : Event → Prop
  | .toolstack _ _ => True
  | _ => ∀ key next, t.ownState key = some next → s.ownState key = some next ∨ InOrder (s.ownState key) next

theorem fillRefs_eq (front : Frontend) (left i : Nat) (gref : List Nat) (size : gref.length = left + i) :
    fillRefs front left i gref = (readRefs front left i).bind fun refs => .ok (gref.take i ++ refs) := by
  induction left generalizing i gref with
  | zero =>
      rw [Nat.zero_add] at size
      simp [fillRefs, readRefs, Outcome.bind, List.take_of_length_le (Nat.le_of_eq size)]
  | succ left ih =>
      unfold fillRefs readRefs
      split
      · rfl
      cases front.ringRefs i with
      | none => rfl
      | some ref =>
          simp only [if_pos (show i < gref.length by omega)]
          rw [ih (i + 1) (gref.set i ref) (by simp; omega)]
          have start : (gref.set i ref).take (i + 1) = gref.take i ++ [ref] := by
            rw [List.take_add_one, List.take_set_of_le (Nat.le_refl i)]
            simp [show i < gref.length by omega]
          cases readRefs front left (i + 1) with
          | ok refs => simp [Outcome.bind, start]
          | error code => rfl
          | undefined => rfl

theorem fillGrefs_eq (front : Frontend) (calls : Calls) : fillGrefs front calls = readGrefs front calls := by
  unfold fillGrefs readGrefs
  simp only
  split
  · rfl
  split
  · rfl
  split
  · next zero =>
      cases front.ringRef with
      | none => rfl
      | some ref => simp [zero]
  · rw [fillRefs_eq front _ 0 _ (by simp)]
    cases readRefs front _ 0 with
    | ok refs => simp [Outcome.bind]
    | error code => rfl
    | undefined => rfl

theorem state_write (store : Store) (f : Entry → Entry) (same : ∀ e, (f e).state = e.state) :
    ((store.write key f).entry other).bind (·.state) = (store.entry other).bind (·.state) := by
  rw [Store.write, entry_set]
  split
  · next here =>
      subst here
      rw [Option.bind_some, same]
      cases store.entry other <;> rfl
  · rfl

theorem Paired.withStore (paired : s.Paired) (store : Store) (issued : Key → Option Int) :
    Paired { s with store, issued } := ⟨paired.nodup, paired.balanced⟩

structure Turn (s : State) (done : State × Bool) (committed : Bool) : Prop where
  paired : done.1.Paired
  connects : ∀ key, s.connects key ≠ done.1.connects key →
    s.connects key = s.disconnects key ∧ done.1.connects key = s.connects key + 1
  order : done.2 = false → committed = true → ∀ key next, done.1.ownState key = some next →
    s.ownState key = some next ∨ InOrder (s.ownState key) next

theorem Paired.turn (paired : s.Paired) (failed : Bool) : Turn s (s, failed) committed where
  paired := paired
  connects _ more := absurd rfl more
  order _ _ _ _ same := .inl same

theorem Turn.switchState {state : Nat} {failed : Bool} (turn : Turn s (u, failed) committed)
    (same : ∀ other, u.ownState other = s.ownState other)
    (order : calls.stateWritten = true → committed = true → InOrder (s.ownState key) state) :
    Turn s (u.switchState key state calls) committed := by
  unfold State.switchState
  split
  · next written =>
      refine ⟨turn.paired.withStore _ u.issued, turn.connects, fun _ yes other next switched => ?_⟩
      simp only [State.ownState, Store.write, entry_set] at switched
      split at switched
      · next here =>
          subst here
          simp only [Option.bind_some, Option.some.injEq] at switched
          exact switched ▸ .inr (order written yes)
      · exact .inl ((same other).symm.trans switched)
  · exact ⟨turn.paired, turn.connects, fun failed => by simp at failed⟩

theorem Turn.detach {failed : Bool} {e : Device} (turn : Turn s (u, failed) committed) (found : u.device key = some e)
    (connected : e.bdev.gref ≠ none) (called : calls.detach ≠ .failed) (f : BlkbackDevice → BlkbackDevice)
    (cleared : (f e.bdev).gref = none) : Turn s ((u.callDetach key calls).setBdev key f, true) committed := by
  have held : u.held key = true := by simpa [State.held, found, Option.isSome_iff_ne_none] using connected
  have balanced := turn.paired.balanced key
  rw [if_pos held] at balanced
  rw [State.callDetach, if_neg called]
  have next := turn.paired.rewire found f u.connects (Function.update u.disconnects key (u.disconnects key + 1))
    (fun other away => ⟨rfl, Function.update_of_ne away _ _⟩) (by simpa [cleared] using balanced)
  exact ⟨next, turn.connects, fun failed => absurd failed (by simp)⟩

theorem Turn.writeInfo {failed : Bool} {e : Device} (turn : Turn s (u, failed) committed)
    (same : ∀ other, u.ownState other = s.ownState other) (found : u.device d.key = some e)
    (connected : e.bdev.gref ≠ none) (detached : calls.detach = .failed → calls.paramsWritten ∧ calls.stateWritten)
    (order : calls.paramsWritten = true → calls.stateWritten = true → committed = true →
      InOrder (s.ownState d.key) xenbusStateConnected) : Turn s (u.writeInfo d calls) committed := by
  unfold State.writeInfo
  by_cases written : calls.paramsWritten && calls.stateWritten
  · simp only [if_pos written]
    rw [Bool.and_eq_true] at written
    have params : ∀ other, State.ownState { u with store := u.store.write d.key fun e =>
        { e with params := some (d.bdev.sectorSize, d.bdev.sectors, d.bdev.info) } } other = u.ownState other := by
      intro other
      exact state_write u.store (fun e => { e with params := some (d.bdev.sectorSize, d.bdev.sectors, d.bdev.info) })
        (fun _ => rfl)
    have written_info : Turn s ({ u with store := u.store.write d.key fun e =>
        { e with params := some (d.bdev.sectorSize, d.bdev.sectors, d.bdev.info) } }, failed) committed :=
      ⟨turn.paired.withStore _ u.issued, turn.connects, fun ok yes other next switched =>
        turn.order ok yes other next ((params other).symm.trans switched)⟩
    exact written_info.switchState (fun other => (params other).trans (same other)) (order written.1)
  · simp only [if_neg written]
    rw [Bool.and_eq_true] at written
    exact turn.detach found connected (fun failed => written (detached failed)) _ rfl

theorem Turn.frontendChanged {state : Int} (paired : s.Paired) (found : s.device d.key = some d)
    (orderly : s.Orderly d state calls committed) : Turn s (s.frontendChanged d state calls) committed := by
  have start : Turn s (s, false) committed := paired.turn false
  unfold State.frontendChanged
  split
  · next here => exact start.switchState (fun _ => rfl) (orderly.initialising here)
  split
  · next here =>
      unfold State.connectTap
      cases gref : d.bdev.gref with
      | some refs =>
          have connected : d.bdev.gref ≠ none := by simp [gref]
          exact start.writeInfo (fun _ => rfl) found connected (orderly.detached here (.inl connected))
            (orderly.connected here (.inl connected))
      | none =>
          cases ring : readRing (s.front d.frontendPath) calls with
          | undefined => exact absurd ring (readRing_defined (orderly.readable here gref))
          | error code => exact paired.turn true
          | ok pair =>
              obtain ⟨refs, port⟩ := pair
              by_cases taken : calls.tapConnected
              · simp only [if_pos taken]
                have attaches : s.Attaches d calls := .inr ⟨taken, _, ring⟩
                have idle : s.held d.key = false := by simp [State.held, found, gref]
                have balanced := paired.balanced d.key
                simp only [idle, Bool.false_eq_true, if_false, Nat.add_zero] at balanced
                have next := paired.rewire found (fun b => { b with gref := some refs, port })
                  (Function.update s.connects d.key (s.connects d.key + 1)) s.disconnects
                  (fun other away => ⟨Function.update_of_ne away _ _, rfl⟩) (by simp [balanced])
                have attached : Turn s (s.attach d.key refs port, false) committed := by
                  refine ⟨next, fun key more => ?_, fun _ _ _ _ same => .inl same⟩
                  by_cases own : key = d.key
                  · subst own
                    exact ⟨balanced, Function.update_self _ _ _⟩
                  · exact absurd (Function.update_of_ne own _ _).symm more
                have listed : (s.attach d.key refs port).device d.key =
                    some { d with bdev := { d.bdev with gref := some refs, port } } := by
                  have device := device_setBdev s d.key d.key fun b => { b with gref := some refs, port }
                  rw [if_pos rfl, found] at device
                  exact device
                exact attached.writeInfo (fun _ => rfl) listed (by simp) (orderly.detached here attaches)
                  (orderly.connected here attaches)
              · simp only [if_neg taken]
                exact paired.turn true
  split
  · next here => exact start.switchState (fun _ => rfl) (orderly.closing here)
  split
  · next here =>
      unfold State.disconnectTap
      cases gref : d.bdev.gref with
      | none => exact start
      | some refs =>
          have connected : d.bdev.gref ≠ none := by simp [gref]
          have present := orderly.present here connected
          cases detach : calls.detach with
          | gone => exact absurd detach present
          | failed => simpa [State.callDetach, detach] using paired.turn true
          | done =>
              have let_go := start.detach found connected (show calls.detach ≠ .failed by simp [detach])
                (fun b => { b with gref := none, port := 2 ^ 32 - 1 }) rfl
              simp only [ne_eq, not_true, if_false]
              apply let_go.switchState
              · intro other
                simp only [State.callDetach, detach, reduceCtorEq, if_false]
                rfl
              · exact orderly.closed here connected
  · exact start

theorem Paired.device_of_mem (paired : s.Paired) (member : d ∈ s.devices) : s.device d.key = some d :=
  find?_of_mem s.devices paired.nodup member

theorem Paired.handleOtherend (paired : s.Paired) (proper : s.Proper (.otherend path calls committed)) :
    Turn s (s.handleOtherend path calls) committed := by
  unfold State.handleOtherend
  cases at' : s.deviceAt path with
  | none => exact ⟨⟨paired.nodup, paired.balanced⟩, fun key more => absurd rfl more, fun failed => by simp at failed⟩
  | some d =>
      have found := paired.device_of_mem (List.mem_of_find?_eq_some at')
      have orderly := proper d at'
      simp only [State.checkFrontendState]
      cases text : (s.front d.frontendPath).state with
      | none => exact paired.turn true
      | some text' =>
          cases number : text' with
          | none => exact paired.turn true
          | some state => exact Turn.frontendChanged paired found (orderly text' text state number)

theorem createDevice_state (key other : Key) (calls : Calls) :
    (s.createDevice key calls).1.ownState other = s.ownState other := by
  have serial : (State.writeSerial { s with serial := s.serial + 1 } key s.serial).ownState other = s.ownState other :=
    state_write s.store (fun e => { e with xenioSerial := some s.serial }) (fun _ => rfl)
  have order : ((State.writeSerial { s with serial := s.serial + 1 } key s.serial).writeOrder key).ownState other =
      s.ownState other :=
    (state_write _ (fun e => { e with maxRingPageOrder := some s.maxRingPageOrder }) (fun _ => rfl)).trans serial
  unfold State.createDevice
  split
  · rfl
  simp only
  split
  · rfl
  split
  · rfl
  split
  · exact serial
  have ordered : (if s.maxRingPageOrder ≠ 0 then
      (State.writeSerial { s with serial := s.serial + 1 } key s.serial).writeOrder key
      else State.writeSerial { s with serial := s.serial + 1 } key s.serial).ownState other = s.ownState other := by
    split
    · exact order
    · exact serial
  split
  · exact ordered
  split
  · exact ordered
  · exact ordered

structure Probed (scope : Key → Prop) (s t : State) : Prop where
  paired : t.Paired
  connects : t.connects = s.connects
  states : ∀ key, t.ownState key = s.ownState key
  idle : ∀ key, scope key → ∀ d, t.device key = some d → t.store.entry key = none → d.bdev.gref = none

section probed
variable {scope : Key → Prop} {asked : Key → Calls}

theorem Probed.probe (probed : Probed scope s t) (inside : scope key) : Probed scope s (t.probe key calls).1 := by
  have settle : ∀ {u : State}, Probed scope s u →
      Probed scope s { u with settled := Function.update u.settled key true } := fun probed =>
    ⟨⟨probed.paired.nodup, probed.paired.balanced⟩, probed.connects, probed.states, probed.idle⟩
  obtain ⟨paired, connects, states, idle⟩ := probed
  unfold State.probe State.probeDevice
  cases found : t.device key with
  | none =>
      cases there : (t.store.entry key).isSome with
      | false => exact settle ⟨paired, connects, states, idle⟩
      | true =>
          apply settle
          have same := fun other => createDevice_state (s := t) key other calls
          obtain ⟨-, -, serial, action⟩ | ⟨-, -, store, records, action⟩ |
            ⟨-, store, frontendPath, bdev, records, unused, action⟩ := createDevice_cases calls there
          · simp only [action] at same ⊢
            exact ⟨⟨paired.nodup, paired.balanced⟩, connects, states, idle⟩
          · simp only [action] at same ⊢
            refine ⟨⟨paired.nodup, paired.balanced⟩, connects, fun other => (same other).trans (states other), ?_⟩
            intro other within d listed gone
            apply idle other within d listed
            have kept := records.isSome there other
            rw [gone] at kept
            simpa using kept.symm
          · simp only [action] at same ⊢
            refine ⟨paired.append found unused, connects, fun other => (same other).trans (states other), ?_⟩
            intro other within d listed gone
            have kept := records.isSome there other
            rw [gone] at kept
            have listed' := (device_append t ⟨key, t.serial, frontendPath, bdev⟩ found other).symm.trans listed
            by_cases here : other = key
            · rw [if_pos here] at listed'
              cases listed'
              exact unused
            · rw [if_neg here] at listed'
              exact idle other within d listed' (by simpa using kept.symm)
  | some d =>
      have own := device_key found
      subst own
      cases there : (t.store.entry d.key).isSome with
      | false =>
          have gone : t.store.entry d.key = none := by simpa using there
          apply settle
          refine ⟨paired.removeDevice found (idle d.key inside d found gone), connects, states, ?_⟩
          intro other within e listed absent
          rw [paired.device_removeDevice] at listed
          split at listed
          · cases listed
          · exact idle other within e listed absent
      | true =>
          simp only
          split
          · exact settle ⟨paired, connects, states, idle⟩
          · exact settle ⟨⟨paired.nodup, paired.balanced⟩, connects, states, idle⟩

theorem Probed.loop (probed : Probed scope s t) (all : ∀ key, scope key) (keys : List Key) :
    Probed scope s (keys.foldl (fun s key => if s.aborted then s else (s.probe key (asked key)).1) t) := by
  induction keys generalizing t with
  | nil => exact probed
  | cons key keys ih =>
      apply ih
      simp only
      split
      · exact probed
      · exact probed.probe (all key)

theorem Probed.turn (probed : Probed scope s t) (failed : Bool) : Turn s (t, failed) committed where
  paired := probed.paired
  connects key more := absurd (congrFun probed.connects key).symm more
  order _ _ key _ same := .inl ((probed.states key).symm.trans same)

end probed

theorem Turn.finish {done : State × Bool} (turn : Turn s done committed) :
    (s.finish done committed).Paired ∧ (∀ key, s.connects key ≠ (s.finish done committed).connects key →
      s.connects key = s.disconnects key ∧ (s.finish done committed).connects key = s.connects key + 1) ∧
    ∀ key next, (s.finish done committed).ownState key = some next →
      s.ownState key = some next ∨ InOrder (s.ownState key) next := by
  unfold State.finish
  split
  · exact ⟨turn.paired.withStore s.store s.issued, turn.connects, fun key next same => .inl same⟩
  · next ended =>
      have ended : done.2 = false ∧ committed = true := by simpa using ended
      exact ⟨turn.paired, turn.connects, turn.order ended.1 ended.2⟩

theorem Paired.follows (paired : t.Paired) (connects : ∀ key, s.connects key ≠ t.connects key →
    s.connects key = s.disconnects key ∧ t.connects key = s.connects key + 1) : s.Follows t where
  connected := connects
  freed key _ absent := by
    have balanced := paired.balanced key
    simpa [State.held, absent] using balanced
  once key := by
    have balanced := paired.balanced key
    split at balanced <;> omega

theorem Paired.step {event : Event} (paired : s.Paired) (proper : s.Proper event) (action : step s event = some t) :
    t.Paired ∧ s.Follows t ∧ s.Switches t event := by
  have ends : ∀ {done : State × Bool} {committed : Bool}, Turn s done committed → s.finish done committed = t →
      t.Paired ∧ s.Follows t ∧ ∀ key next, t.ownState key = some next →
        s.ownState key = some next ∨ InOrder (s.ownState key) next := by
    rintro done committed turn rfl
    obtain ⟨after, connects, order⟩ := turn.finish
    exact ⟨after, after.follows connects, order⟩
  cases event with
  | toolstack key entry =>
      cases action
      have after : (s.toolstack key entry).Paired := ⟨paired.nodup, paired.balanced⟩
      exact ⟨after, after.follows fun key more => absurd rfl more, trivial⟩
  | guest path front =>
      cases action
      have after : State.Paired { s with front := Function.update s.front path front } :=
        ⟨paired.nodup, paired.balanced⟩
      exact ⟨after, after.follows fun key more => absurd rfl more, fun key next same => .inl same⟩
  | otherend path calls committed =>
      simp only [Xenio.step] at action
      split at action
      · cases action
      · exact ends (paired.handleOtherend proper) (Option.some.inj action)
  | backend key calls committed =>
      simp only [Xenio.step] at action
      split at action
      · cases action
      · have start : Probed (· = key) s s := ⟨paired, rfl, fun _ => rfl, fun other same d found gone =>
          proper d (same ▸ found) (same ▸ gone)⟩
        exact ends ((start.probe rfl).turn _) (Option.some.inj action)
  | scan asked committed =>
      simp only [Xenio.step] at action
      split at action
      · cases action
      · have start : Probed (fun _ => True) s s := ⟨paired, rfl, fun _ => rfl, fun key _ d found gone =>
          proper d (device_mem found) (device_key found ▸ gone)⟩
        exact ends (((start.loop (fun _ => trivial) _).loop (fun _ => trivial) _).turn false) (Option.some.inj action)

theorem Proper.fits {event : Event} (proper : s.Proper event) : s.Fits event := by
  cases event with
  | otherend path calls committed =>
      intro d at' idle ready
      have readable : Readable (s.front d.frontendPath) calls := by
        obtain ready | ready := ready
        · exact (proper d at' _ ready _ rfl).readable (.inl rfl) idle
        · exact (proper d at' _ ready _ rfl).readable (.inr rfl) idle
      rw [fillGrefs_eq]
      intro undefined
      apply readRing_defined readable
      rw [readRing, undefined]
      rfl
  | toolstack key entry => trivial
  | guest path front => trivial
  | backend key calls committed => trivial
  | scan calls committed => trivial

instance (s : State) (d : Device) (calls : Calls) : Decidable (s.Attaches d calls) :=
  match ring : readRing (s.front d.frontendPath) calls with
  | .ok pair => decidable_of_iff (d.bdev.gref ≠ none ∨ calls.tapConnected = true) (by simp [Attaches, ring])
  | .error _ => decidable_of_iff (d.bdev.gref ≠ none) (by simp [Attaches, ring])
  | .undefined => decidable_of_iff (d.bdev.gref ≠ none) (by simp [Attaches, ring])

set_option synthInstance.maxSize 512 in
instance (s : State) (d : Device) (state : Int) (calls : Calls) (committed : Bool) :
    Decidable (s.Orderly d state calls committed) :=
  decidable_of_iff
    ((state = xenbusStateInitialising → calls.stateWritten = true → committed = true →
        InOrder (s.ownState d.key) xenbusStateInitWait) ∧
      (state = xenbusStateInitialised ∨ state = xenbusStateConnected → d.bdev.gref = none →
        Readable (s.front d.frontendPath) calls) ∧
      (state = xenbusStateInitialised ∨ state = xenbusStateConnected → s.Attaches d calls →
        calls.detach = .failed → calls.paramsWritten = true ∧ calls.stateWritten = true) ∧
      (state = xenbusStateInitialised ∨ state = xenbusStateConnected → s.Attaches d calls →
        calls.paramsWritten = true → calls.stateWritten = true → committed = true →
        InOrder (s.ownState d.key) xenbusStateConnected) ∧
      (state = xenbusStateClosing → calls.stateWritten = true → committed = true →
        InOrder (s.ownState d.key) xenbusStateClosing) ∧
      (state = xenbusStateClosed → d.bdev.gref ≠ none → calls.detach ≠ .gone) ∧
      (state = xenbusStateClosed → d.bdev.gref ≠ none → calls.stateWritten = true → committed = true →
        InOrder (s.ownState d.key) xenbusStateClosed))
    ⟨fun h => ⟨h.1, h.2.1, h.2.2.1, h.2.2.2.1, h.2.2.2.2.1, h.2.2.2.2.2.1, h.2.2.2.2.2.2⟩,
      fun h => ⟨h.initialising, h.readable, h.detached, h.connected, h.closing, h.present, h.closed⟩⟩

instance (s : State) : (event : Event) → Decidable (s.Proper event)
  | .otherend path calls committed => inferInstanceAs (Decidable (∀ d ∈ s.deviceAt path,
      ∀ text ∈ (s.front d.frontendPath).state, ∀ state ∈ text, s.Orderly d state calls committed))
  | .backend key _ _ => inferInstanceAs (Decidable (∀ d ∈ s.device key, _ → _))
  | .scan _ _ => inferInstanceAs (Decidable (∀ d ∈ s.devices, _ → _))
  | .toolstack _ _ | .guest _ _ => .isTrue trivial

end State
end Blktap.Xenio
