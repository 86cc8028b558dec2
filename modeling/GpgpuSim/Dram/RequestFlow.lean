import GpgpuSim.Dram.Accounting

/-! A cycle of the memory controller keeps every request accounted for, and stops with
no fault but an index outside an array. -/
namespace GpgpuSim.Dram
open GpgpuSim.Memory Transition

variable {cfg : MemoryConfig} {trace shown : List DramEvent} {s t : DramT} {place : Nat → Option Station}

/-! ## Arrival of data -/

theorem SameRequest.room {req req' : DramReq} (same : SameRequest req req') {sched : FrfcfsScheduler}
    (room : FrfcfsScheduler.Room cfg req sched) : FrfcfsScheduler.Room cfg req' sched := by
  unfold FrfcfsScheduler.Room FrfcfsScheduler.separateWrite DramReq.isWrite at *
  rwa [same.accessType]

theorem Arrivals.congr (arrivals : Arrivals cfg s) (mrqq : t.mrqq = s.mrqq)
    (sched : t.frfcfsScheduler = s.frfcfsScheduler) (same : ∀ r, SameRequest (s.reqs r) (t.reqs r)) :
    Arrivals cfg t := by
  intro frfcfs
  rw [mrqq, sched]
  rcases arrivals frfcfs with none | ⟨r, one, room⟩
  · exact .inl none
  · exact .inr ⟨r, one, (same r).room room⟩

theorem returnData_ok (positive : 0 < cfg.dramAtomSize) (accounted : Accounted cfg trace s place) :
    ∃ t shown, s.returnData cfg = .ok (t, shown) ∧ Accounted cfg (trace ++ shown) t place ∧
      t.mrqq = s.mrqq ∧
      t.frfcfsScheduler = s.frfcfsScheduler ∧ ∀ r, SameRequest (s.reqs r) (t.reqs r) := by
  have pipes := accounted.pipes
  unfold DramT.returnData
  split
  next => exact ⟨s, [], rfl, by simpa using accounted, rfl, rfl, fun _ => .refl _⟩
  next not_full =>
    rw [Bool.not_eq_true] at not_full
    obtain ⟨cmd, rwq, popped, sound, min, max, -, copies⟩ := FifoPipeline.pop_ok pipes.rwq
    have popped' : fifoOp s.rwq.pop = .ok (cmd, rwq) := fifoOp_ok.mpr popped
    have kept : ∀ returnq : FifoPipeline MfId, returnq.Sound → returnq.maxLen ≠ 0 →
        Pipes cfg { s with rwq, returnq } := fun returnq sound' bounded =>
      ⟨sound, min.trans pipes.rwqMin, max.trans pipes.rwqMax, pipes.rw, pipes.mrqqMin, pipes.mrqqMax,
        pipes.mrqq,
        sound', bounded⟩
    rw [popped']
    cases cmd with
    | none =>
        have same_copies : ∀ r, rwq.copies r = s.rwq.copies r := fun r => by simpa using (copies r).symm
        refine ⟨{ s with rwq }, [], rfl, ?_, rfl, rfl, fun _ => .refl _⟩
        exact accounted.quiet (t := { s with rwq }) rfl rfl rfl accounted.sched
          ((kept _ pipes.returnq pipes.returnqMax).congr rfl rfl rfl rfl) same_copies .nil (by simp)
          (by simpa using accounted.ordered)
    | some cmd =>
        simp only [Option.some.injEq] at copies
        have used : cmd < s.nextReq := accounted.used_of_copies
          (by rw [copies, if_pos rfl]; exact Nat.succ_ne_zero _)
        have new_req : (({ s with rwq } : DramT).modifyReq cmd
            fun req => { req with dqbytes := req.dqbytes + cfg.dramAtomSize }).reqs cmd =
            { s.reqs cmd with dqbytes := (s.reqs cmd).dqbytes + cfg.dramAtomSize } :=
              Function.update_self ..
        simp only [bind, Except.bind, new_req]
        split
        next finished =>
          split
          next write_back =>
            refine ⟨_, _, rfl, accounted.arrive positive copies (kept _ pipes.returnq pipes.returnqMax)
              (.last finished ⟨used, rfl, write_back⟩ (fun r => rfl) fun r => ⟨rfl, rfl⟩), rfl, rfl,
              fun r => SameRequest.modifyDq s cmd _ r⟩
          next read =>
            have room := FifoPipeline.room_of_not_full pipes.returnqMax not_full
            obtain ⟨returnq, pushed, min', max', longer, bound, -, -⟩ :=
              FifoPipeline.push_ok s.returnq room (some (s.reqs cmd).data)
            have sound' : returnq.Sound :=
              ⟨by rw [min']; exact pipes.returnq.min.trans longer, by rw [max']; exact bound⟩
            have pushed' : fifoOp (s.returnq.push (some (s.reqs cmd).data)) = .ok returnq :=
              fifoOp_ok.mpr pushed
            simp only [DramT.modifyReq, pushed']
            refine ⟨_, _, rfl, accounted.arrive positive copies
              (kept returnq sound' (by rw [max']; exact pipes.returnqMax))
              (.last finished ⟨used, rfl, by simpa using read⟩ (fun r => rfl) fun r => ⟨rfl, rfl⟩),
                rfl, rfl,
              fun r => SameRequest.modifyDq s cmd _ r⟩
        next unfinished =>
          refine ⟨_, _, rfl, accounted.arrive positive copies (kept _ pipes.returnq pipes.returnqMax)
            (.more unfinished), rfl, rfl, fun r => SameRequest.modifyDq s cmd _ r⟩

/-! ## Scheduling -/

theorem Pipes.dropHead (pipes : Pipes cfg s) {head : Option Nat} {rest : List (Option Nat)}
    (nodes : s.mrqq.nodes = head :: rest) : Pipes cfg
        { s with mrqq := { s.mrqq with nodes := rest } } := by
  have filled := pipes.mrqq
  rw [nodes, List.mem_cons, not_or] at filled
  exact ⟨pipes.rwq, pipes.rwqMin, pipes.rwqMax, pipes.rw, pipes.mrqqMin, pipes.mrqqMax, filled.2,
    pipes.returnq,
    pipes.returnqMax⟩

theorem view_serving (bank req : Nat) (b : Nat) :
    (s.modifyBank bank fun old => { old with mrq := some req }).view (.serving b) =
      if b = bank then [req] else s.view (.serving b) := by
  by_cases here : b = bank
  · subst here
    simp [DramT.view, DramT.modifyBank]
  · simp [DramT.view, DramT.modifyBank, here]

theorem view_elsewhere (bank req : Nat) {station : Station} (elsewhere : ∀ b, station ≠ .serving b) :
    (s.modifyBank bank fun old => { old with mrq := some req }).view station = s.view station := by
  cases station with
  | serving b => exact absurd rfl (elsewhere b)
  | arriving => rfl
  | reading b => rfl
  | writing b => rfl

/-- A request goes from where it waited to its idle bank. -/
theorem Accounted.serve (accounted : Accounted cfg trace s place) {r bank : Nat} {station : Station} {rest : List Nat}
    (held : (s.view station).Perm (r :: rest)) (elsewhere : ∀ b, station ≠ .serving b)
    (taken : (t.view station).Perm rest) (others : ∀ other ≠ station, t.view other = s.view other)
    (idle : (s.bk bank).mrq = none) (fits : (s.reqs r).bk = bank ∧ bank < cfg.nbk) (next : t.nextReq = s.nextReq)
    (reqs : t.reqs = s.reqs) (rwq : t.rwq = s.rwq) (sched : t.frfcfsScheduler.Sound cfg s.reqs)
        (pipes : Pipes cfg t) :
    Accounted cfg trace (t.modifyBank bank fun old => { old with mrq := some r })
      (Function.update place r (some (.serving bank))) := by
  have apart : station ≠ .serving bank := elsewhere bank
  have waited := accounted.custody.place_of_mem (held.mem_iff.mpr List.mem_cons_self)
  refine accounted.goesOn (.serving bank) waited ?_ fits next reqs rwq sched (pipes.congr rfl rfl rfl rfl)
  apply accounted.custody.hands apart held
  intro other
  by_cases here : other = .serving bank
  · subst here
    rw [view_serving, if_pos rfl, Function.update_self]
    simp [DramT.view, idle]
  · rw [Function.update_of_ne here]
    have unchanged :
      (t.modifyBank bank fun old => { old with mrq := some r }).view other = t.view other := by
      by_cases serves : ∃ b, other = .serving b
      · obtain ⟨b, rfl⟩ := serves
        rw [view_serving, if_neg fun h => here (congrArg _ h)]
      · exact view_elsewhere bank r fun b h => serves ⟨b, h⟩
    rw [unchanged]
    by_cases source : other = station
    · subst source
      rw [Function.update_self]
      exact taken
    · rw [Function.update_of_ne source, others other source]

theorem view_dropHead {rest : List (Option Nat)} {other : Station} (elsewhere : other ≠ .arriving) :
    ({ s with mrqq := { s.mrqq with nodes := rest } } : DramT).view other = s.view other := by
  cases other with
  | arriving => exact absurd rfl elsewhere
  | reading b => rfl
  | writing b => rfl
  | serving b => rfl

theorem schedulerFifo_keeps (accounted : Accounted cfg trace s place) :
    Ends (s.schedulerFifo cfg) fun shown t => ∃ place', Accounted cfg (trace ++ shown) t place' := by
  have pipes := accounted.pipes
  unfold DramT.schedulerFifo
  split
  next => exact ⟨place, by simpa using accounted⟩
  next not_empty =>
    cases nodes : s.mrqq.nodes with
    | nil => simp [FifoPipeline.empty, nodes] at not_empty
    | cons front rest =>
        have filled := pipes.mrqq
        rw [nodes, List.mem_cons, not_or] at filled
        cases front with
        | none => exact absurd rfl filled.1
        | some head =>
            have top : s.mrqq.top = some head := by simp [FifoPipeline.top, nodes]
            have popped : fifoOp s.mrqq.pop = .ok (some head, { s.mrqq with nodes := rest }) :=
              fifoOp_ok.mpr (FifoPipeline.pop_front pipes.mrqqMin nodes)
            simp only [top]
            split
            next inside =>
              split
              next idle =>
                rw [popped]
                have arriving : s.view .arriving = head :: rest.filterMap fun node => node := by
                  simp [DramT.view, nodes]
                refine ⟨Function.update place head (some (.serving (s.reqs head).bk)), ?_⟩
                rw [List.append_nil]
                exact accounted.serve (.of_eq arriving) (by simp) (.refl _)
                  (fun other => view_dropHead) idle
                  ⟨rfl, inside⟩ rfl rfl rfl accounted.sched (pipes.dropHead nodes)
              next => exact ⟨place, by simpa using accounted⟩
            next => rfl

theorem addReq_outside {req : Nat} {reqs : Nat → DramReq} {sched : FrfcfsScheduler}
    (room : FrfcfsScheduler.Room cfg (reqs req) sched) (outside : ¬ (reqs req).bk < cfg.nbk) :
    sched.addReq cfg reqs req = .error .outOfRange := by
  unfold FrfcfsScheduler.addReq
  unfold FrfcfsScheduler.Room at room
  dsimp only
  cases kind : FrfcfsScheduler.separateWrite cfg (reqs req) with
  | true =>
      rw [if_pos kind] at room
      simp [room, outside]
  | false =>
      rw [if_neg (by simp [kind])] at room
      simp [room, outside]

/-- The arriving request is queued for its bank. -/
theorem Accounted.queues (accounted : Accounted cfg trace s place) {r : Nat} (one : s.mrqq.nodes = [some r])
    {sched : FrfcfsScheduler} (sound : sched.Sound cfg s.reqs)
    (added : if FrfcfsScheduler.separateWrite cfg (s.reqs r) then
        sched.reads = s.frfcfsScheduler.reads ∧
          sched.writes = s.frfcfsScheduler.writes.add r (s.reqs r).bk (s.reqs r).row
      else sched.writes = s.frfcfsScheduler.writes ∧
        sched.reads = s.frfcfsScheduler.reads.add r (s.reqs r).bk (s.reqs r).row) :
    ∃ place', Accounted cfg trace
      { s with mrqq := { s.mrqq with nodes := [] }, frfcfsScheduler := sched } place' := by
  have arriving : s.view .arriving = [r] := by simp [DramT.view, one]
  have waited := accounted.custody.place_of_head arriving
  have pipes := accounted.pipes.dropHead one
  split at added
  next =>
    refine ⟨_, accounted.goesOn (.writing (s.reqs r).bk) waited ?_ rfl rfl rfl rfl sound
      (pipes.congr rfl rfl rfl rfl)⟩
    apply accounted.custody.hands (by simp) (.of_eq arriving)
    intro station
    cases station with
    | arriving => exact .refl _
    | reading b =>
        rw [Function.update_of_ne (by simp), Function.update_of_ne (by simp)]
        simp only [DramT.view, added.1]
        exact .refl _
    | serving b => exact .refl _
    | writing b =>
        by_cases here : b = (s.reqs r).bk
        · subst here
          rw [Function.update_self]
          simp [DramT.view, added.2, RequestQueues.add]
        · rw [Function.update_of_ne (by simpa using here), Function.update_of_ne (by simp)]
          simp [DramT.view, added.2, RequestQueues.add, here]
  next =>
    refine ⟨_, accounted.goesOn (.reading (s.reqs r).bk) waited ?_ rfl rfl rfl rfl sound
      (pipes.congr rfl rfl rfl rfl)⟩
    apply accounted.custody.hands (by simp) (.of_eq arriving)
    intro station
    cases station with
    | arriving => exact .refl _
    | writing b =>
        rw [Function.update_of_ne (by simp), Function.update_of_ne (by simp)]
        simp only [DramT.view, added.1]
        exact .refl _
    | serving b => exact .refl _
    | reading b =>
        by_cases here : b = (s.reqs r).bk
        · subst here
          rw [Function.update_self]
          simp [DramT.view, added.2, RequestQueues.add]
        · rw [Function.update_of_ne (by simpa using here), Function.update_of_ne (by simp)]
          simp [DramT.view, added.2, RequestQueues.add, here]

theorem drainMrqq_keeps (accounted : Accounted cfg trace s place) (arrivals : Arrivals cfg s)
    (frfcfs : cfg.schedulerType = .dramFrfcfs) :
    Ends (s.drainMrqq cfg s.mrqq.length) fun shown t =>
      (∃ place', Accounted cfg (trace ++ shown) t place') ∧ t.mrqq.nodes = [] := by
  rcases arrivals frfcfs with none | ⟨r, one, room⟩
  · rw [FifoPipeline.length, none]
    exact ⟨⟨place, by simpa using accounted⟩, none⟩
  · rw [FifoPipeline.length, one, List.length_singleton, DramT.drainMrqq]
    have not_empty : s.mrqq.empty = false := by simp [FifoPipeline.empty, one]
    have popped : fifoOp s.mrqq.pop = .ok (some r, { s.mrqq with nodes := [] }) :=
      fifoOp_ok.mpr (FifoPipeline.pop_front accounted.pipes.mrqqMin one)
    simp only [not_empty, Bool.false_eq_true, if_false, popped, bind, Except.bind]
    by_cases inside : (s.reqs r).bk < cfg.nbk
    · have arriving : place r = some .arriving :=
        accounted.custody.place_of_mem (by simp [DramT.view, one])
      have absent : ∀ b, r ∉ s.frfcfsScheduler.reads.queue b ∧ r ∉ s.frfcfsScheduler.writes.queue b := by
        intro b
        constructor
        · intro queued
          have reading := accounted.custody.place_of_mem (s := .reading b) queued
          rw [arriving] at reading
          simp at reading
        · intro queued
          have writing := accounted.custody.place_of_mem (s := .writing b) queued
          rw [arriving] at writing
          simp at writing
      obtain ⟨sched, ok, sound, added⟩ := accounted.sched.addReq room inside absent
      rw [ok]
      obtain ⟨place', queued⟩ := accounted.queues one sound added
      exact ⟨⟨place', by simpa using queued⟩, rfl⟩
    · rw [addReq_outside room inside]
      rfl

/-- The scheduled request goes to its bank. -/
theorem Accounted.scheduled (accounted : Accounted cfg trace s place) {bank req : Nat} (prio : Nat)
    (inside : bank < cfg.nbk)
    (idle : (s.bk bank).mrq = none) {sched : FrfcfsScheduler} (sound : sched.Sound cfg s.reqs)
    (scheduled : FrfcfsScheduler.Scheduled bank req s.frfcfsScheduler sched) :
    ∃ place', Accounted cfg trace
      (({ s with frfcfsScheduler := sched, prio } : DramT).modifyBank bank fun old =>
        { old with mrq := some req })
      place' := by
  rcases scheduled with ⟨queued, writes, reads⟩ | ⟨queued, reads, writes⟩
  · have held : (s.view (.reading bank)).Perm (req :: (s.frfcfsScheduler.reads.queue bank).erase req) :=
      List.perm_cons_erase queued
    have fits := accounted.fits req _
      (accounted.custody.place_of_mem (held.mem_iff.mpr List.mem_cons_self))
    refine ⟨_, accounted.serve held (by simp) ?_ ?_ idle ⟨fits, inside⟩ rfl rfl rfl sound
      (accounted.pipes.congr rfl rfl rfl rfl)⟩
    · simp [DramT.view, reads]
    · intro other apart
      cases other with
      | arriving => rfl
      | serving b => rfl
      | writing b => simp only [DramT.view, writes]
      | reading b =>
          have elsewhere : b ≠ bank := fun h => apart (congrArg _ h)
          simp only [DramT.view, reads, Function.update_of_ne elsewhere]
  · have held : (s.view (.writing bank)).Perm (req :: (s.frfcfsScheduler.writes.queue bank).erase req) :=
      List.perm_cons_erase queued
    have fits := accounted.fits req _
      (accounted.custody.place_of_mem (held.mem_iff.mpr List.mem_cons_self))
    refine ⟨_, accounted.serve held (by simp) ?_ ?_ idle ⟨fits, inside⟩ rfl rfl rfl sound
      (accounted.pipes.congr rfl rfl rfl rfl)⟩
    · simp [DramT.view, writes]
    · intro other apart
      cases other with
      | arriving => rfl
      | serving b => rfl
      | reading b => simp only [DramT.view, reads]
      | writing b =>
          have elsewhere : b ≠ bank := fun h => apart (congrArg _ h)
          simp only [DramT.view, writes, Function.update_of_ne elsewhere]

theorem scheduleBank_keeps (accounted : Accounted cfg trace s place) (drained : s.mrqq.nodes = []) {banks : List Nat}
    (some_bank : ∀ i ∈ banks, i < cfg.nbk) :
    Ends (s.scheduleBank cfg banks) fun shown t =>
      (∃ place', Accounted cfg (trace ++ shown) t place') ∧ t.mrqq.nodes = [] := by
  induction banks generalizing s with
  | nil => exact ⟨⟨place, by simpa using accounted⟩, drained⟩
  | cons i later ih =>
      rw [DramT.scheduleBank]
      have positive : 0 < cfg.nbk := Nat.lt_of_le_of_lt (Nat.zero_le i) (some_bank i List.mem_cons_self)
      have rest : ∀ i ∈ later, i < cfg.nbk := fun i mem => some_bank i (List.mem_cons_of_mem _ mem)
      have inside : (i + s.prio) % cfg.nbk < cfg.nbk := Nat.mod_lt _ positive
      dsimp only
      split
      next idle =>
        obtain ⟨result, sched, ok, sound, moved⟩ := accounted.sched.schedule inside
          (s.bk ((i + s.prio) % cfg.nbk)).currRow
        rw [ok]
        cases result with
        | none =>
            have same : Accounted cfg (trace ++ []) { s with frfcfsScheduler := sched } place := by
              apply accounted.quiet (t := { s with frfcfsScheduler := sched }) rfl rfl _ sound
                (accounted.pipes.congr rfl rfl rfl rfl) (fun _ => rfl) .nil (by simp)
                  (by simpa using accounted.ordered)
              exact view_congr (t := { s with frfcfsScheduler := sched }) rfl (by rw [moved.1])
                (by rw [moved.2])
                fun _ => rfl
            rw [List.append_nil] at same
            exact ih same drained rest
        | some req =>
            obtain ⟨place', served⟩ := accounted.scheduled
              ((s.prio + 1) % cfg.nbk) inside idle sound moved
            exact ⟨⟨place', by simpa using served⟩, drained⟩
      next => exact ih accounted drained rest

theorem Ends.imp {result : Except DramFault (DramT × List DramEvent)} {P Q : List DramEvent → DramT → Prop}
    (ends : Ends result P) (weaken : ∀ shown t, P shown t → Q shown t) : Ends result Q := by
  cases result with
  | error fault => exact ends
  | ok result => exact weaken _ _ ends

theorem Ends.andThen {first second : Stage DramT DramEvent DramFault} {P Q : List DramEvent → DramT → Prop}
    (one : Ends (first s) P) (two : ∀ shown t, P shown t → Ends (second t) fun more u => Q (shown ++ more) u) :
    Ends (first.andThen second s) Q := by
  unfold Stage.andThen
  cases ran : first s with
  | error fault =>
      rw [ran] at one
      exact one
  | ok result =>
      obtain ⟨t, shown⟩ := result
      rw [ran] at one
      have next := two shown t one
      dsimp only
      cases ran' : second t with
      | error fault =>
          rw [ran'] at next
          exact next
      | ok result =>
          rw [ran'] at next
          exact next

theorem scheduler_keeps (accounted : Accounted cfg trace s place) (arrivals : Arrivals cfg s) :
    Ends (s.scheduler cfg) fun shown t => (∃ place', Accounted cfg (trace ++ shown) t place') ∧
      Drained cfg t := by
  unfold DramT.scheduler Drained
  cases type : cfg.schedulerType with
  | dramFifo =>
      exact (schedulerFifo_keeps accounted).imp fun shown t kept => ⟨kept, by simp⟩
  | dramFrfcfs =>
      apply (drainMrqq_keeps accounted arrivals type).andThen
      rintro shown t ⟨⟨place', kept⟩, drained⟩
      apply (scheduleBank_keeps kept drained fun i mem => List.mem_range.mp mem).imp
      rintro more u ⟨⟨place', kept⟩, drained⟩
      exact ⟨⟨place', by simpa using kept⟩, fun _ => drained⟩

/-! ## Commands -/

/-- Only counters, open rows and priorities have changed. -/
structure SameRequests (s t : DramT) : Prop where
  nextReq : t.nextReq = s.nextReq
  reqs : t.reqs = s.reqs
  frfcfsScheduler : t.frfcfsScheduler = s.frfcfsScheduler
  rwq : t.rwq = s.rwq
  rw : t.rw = s.rw
  mrqq : t.mrqq = s.mrqq
  returnq : t.returnq = s.returnq
  mrq : ∀ b, (t.bk b).mrq = (s.bk b).mrq

theorem SameRequests.startColumn (j : Nat) (rw : ReadWrite) : SameRequests s
    (s.startColumn cfg j rw) := by
  cases rw with
  | read =>
      refine ⟨rfl, rfl, rfl, rfl, rfl, rfl, rfl, fun b => ?_⟩
      by_cases here : b = j
      · subst here
        simp [DramT.startColumn, DramT.modifyBank, DramT.modifyGrp]
      · simp [DramT.startColumn, DramT.modifyBank, DramT.modifyGrp, here]
  | write =>
      refine ⟨rfl, rfl, rfl, rfl, rfl, rfl, rfl, fun b => ?_⟩
      by_cases here : b = j
      · subst here
        simp [DramT.startColumn, DramT.modifyBank, DramT.modifyGrp]
      · simp [DramT.startColumn, DramT.modifyBank, DramT.modifyGrp, here]

theorem SameRequests.modifyBank (same : SameRequests s t) (j : Nat) {change : Bank → Bank}
    (mrq : ∀ bank, (change bank).mrq = bank.mrq) : SameRequests s (t.modifyBank j change) := by
  refine ⟨same.nextReq, same.reqs, same.frfcfsScheduler, same.rwq, same.rw, same.mrqq, same.returnq,
    fun b => ?_⟩
  rw [← same.mrq b]
  by_cases here : b = j
  · subst here
    simp [DramT.modifyBank, mrq]
  · simp [DramT.modifyBank, here]

theorem SameRequests.view (same : SameRequests s t) : t.view = s.view :=
  view_congr same.mrqq (by rw [same.frfcfsScheduler]) (by rw [same.frfcfsScheduler]) same.mrq

/-- A step that moves no request, and shows at most row commands. -/
theorem Accounted.same (accounted : Accounted cfg trace s place) (same : SameRequests s t)
    (rows : ∀ event ∈ shown, ∃ c : Command, event = .command c ∧ c.isRow) :
    Accounted cfg (trace ++ shown) t place := by
  apply accounted.quiet same.nextReq same.reqs same.view
    (by rw [same.frfcfsScheduler]; exact accounted.sched)
    (accounted.pipes.congr same.rwq same.rw same.mrqq same.returnq) fun r => by rw [same.rwq]
  · intro r
    refine ⟨?_, ?_, ?_⟩
    · rw [columns, List.countP_eq_zero]
      intro c mem
      obtain ⟨event, shows, is_c⟩ := List.mem_filterMap.mp mem
      obtain ⟨d, rfl, row⟩ := rows event shows
      cases is_c
      simp [row]
    · rw [departures, List.countP_eq_zero]
      intro event mem
      obtain ⟨c, rfl, -⟩ := rows event mem
      simp [DramEvent.leaves]
    · rw [entries, List.countP_eq_zero]
      intro event mem
      obtain ⟨c, rfl, -⟩ := rows event mem
      simp [DramEvent.enters]
  · intro event mem
    obtain ⟨c, rfl, row⟩ := rows event mem
    intro column
    rw [row] at column
    contradiction
  · induction shown using List.reverseRecOn with
    | nil => simpa using accounted.ordered
    | append_singleton before event ih =>
        rw [← List.append_assoc]
        apply (ih fun event mem => rows event (List.mem_append_left _ mem)).append
        intro r leaves
        obtain ⟨c, rfl, -⟩ := rows event (List.mem_append_right _ (List.mem_singleton_self _))
        cases leaves

theorem turnBus_ok (pipes : Pipes cfg s) {rw : ReadWrite} (latency : cfg.busLatency rw ≤ cfg.cl)
    (room : s.rwq.length ≤ cfg.cl) :
    ∃ rwq, s.turnBus cfg rw = .ok { s with rw, rwq } ∧ rwq.Sound ∧ rwq.minLen = cfg.busLatency rw ∧
      rwq.maxLen = cfg.cl + 1 ∧ rwq.length ≤ cfg.cl ∧ ∀ r, rwq.copies r = s.rwq.copies r := by
  unfold DramT.turnBus
  split
  next same =>
    subst same
    exact ⟨s.rwq, rfl, pipes.rwq, pipes.rwqMin, pipes.rwqMax, room, fun _ => rfl⟩
  next =>
    have fits : cfg.busLatency rw ≤ s.rwq.maxLen := by
      rw [pipes.rwqMax]
      omega
    obtain ⟨rwq, changed, sound, min, max, bound, copies⟩ := FifoPipeline.setMinLength_ok pipes.rwq fits
    refine ⟨rwq, ?_, sound, min, max.trans pipes.rwqMax, by omega, copies⟩
    cases rw with
    | read => exact bind_ok.mpr ⟨rwq, fifoOp_ok.mpr changed, rfl⟩
    | write => exact bind_ok.mpr ⟨rwq, fifoOp_ok.mpr changed, rfl⟩

theorem transfer_ok (pipes : Pipes cfg s) {mrq : Nat} (j : Nat) (latency : cfg.busLatency (s.reqs mrq).rw ≤ cfg.cl)
    (not_full : s.rwq.full = false) :
    ∃ rwq, s.transfer cfg j mrq = .ok (({ s with rw := (s.reqs mrq).rw, rwq }.modifyReq mrq fun req =>
          { req with txbytes := req.txbytes + cfg.dramAtomSize }).startColumn cfg j (s.reqs mrq).rw) ∧
      Pipes cfg { s with rw := (s.reqs mrq).rw, rwq } ∧
      ∀ r, rwq.copies r = s.rwq.copies r + if some mrq = some r then 1 else 0 := by
  have bounded : s.rwq.maxLen ≠ 0 := by
    rw [pipes.rwqMax]
    exact Nat.succ_ne_zero _
  have room := FifoPipeline.room_of_not_full bounded not_full
  rw [pipes.rwqMax] at room
  obtain ⟨turned, turn, sound, min, max, short, copies⟩ := turnBus_ok pipes latency
    (Nat.le_of_lt_succ room)
  obtain ⟨rwq, pushed, min', max', longer, bound, -, copies'⟩ :=
    FifoPipeline.push_ok turned (by omega) (some mrq)
  have pushed' : fifoOp (turned.push (some mrq)) = .ok rwq := fifoOp_ok.mpr pushed
  refine ⟨rwq, ?_, ?_, fun r => by rw [copies', copies]⟩
  · exact bind_ok.mpr ⟨_, turn, bind_ok.mpr ⟨rwq, pushed', rfl⟩⟩
  · exact ⟨⟨by rw [min']; exact sound.min.trans longer, by rw [max']; exact bound⟩, min'.trans min,
      max'.trans max,
      latency, pipes.mrqqMin, pipes.mrqqMax, pipes.mrqq, pipes.returnq, pipes.returnqMax⟩

/-- After a transfer the bank keeps its request exactly when that needs another one. -/
theorem releaseMrq_eq {mrq j n : Nat} (positive : 0 < cfg.dramAtomSize) (some_sent : 0 < n)
    (txbytes : (s.reqs mrq).txbytes = n * cfg.dramAtomSize) :
    s.releaseMrq j mrq =
      if bursts cfg (s.reqs mrq) ≤ n then s.modifyBank j fun bank =>
        { bank with mrq := none } else s := by
  unfold DramT.releaseMrq
  rw [txbytes]
  have finished : (s.reqs mrq).nbytes ≤ n * cfg.dramAtomSize ↔ bursts cfg (s.reqs mrq) ≤ n :=
    le_mul_iff_bursts_le positive some_sent
  by_cases last : bursts cfg (s.reqs mrq) ≤ n
  · rw [if_pos last, if_neg (Nat.not_lt.mpr (finished.mpr last))]
  · rw [if_neg last, if_pos (Nat.not_le.mp fun h => last (finished.mp h))]

theorem view_release {mrq j : Nat} (serves : (s.bk j).mrq = some mrq) (station : Station) :
    ((s.modifyBank j fun bank => { bank with mrq := none }).view station).Perm
      (Function.update s.view (.serving j) [] station) := by
  cases station with
  | arriving => exact .refl _
  | reading b => exact .refl _
  | writing b => exact .refl _
  | serving b =>
      by_cases here : b = j
      · subst here
        rw [Function.update_self]
        simp [DramT.view, DramT.modifyBank]
      · rw [Function.update_of_ne (by simpa using here)]
        simp [DramT.view, DramT.modifyBank, here]

/-- The stage succeeds, keeps the account, and takes no request in. -/
def KeepsAccount (cfg : MemoryConfig) (stage : Stage DramT DramEvent DramFault) : Prop :=
  ∀ trace s place, Accounted cfg trace s place →
    ∃ t shown place', stage s = .ok (t, shown) ∧ Accounted cfg (trace ++ shown) t place' ∧ t.mrqq = s.mrqq

theorem KeepsAccount.idle : KeepsAccount cfg Stage.idle := by
  intro trace s place accounted
  exact ⟨s, [], place, rfl, by simpa using accounted, rfl⟩

theorem KeepsAccount.andThen {first second : Stage DramT DramEvent DramFault} (one : KeepsAccount cfg first)
    (two : KeepsAccount cfg second) : KeepsAccount cfg (first.andThen second) := by
  intro trace s place accounted
  obtain ⟨t, early, place', before, kept, mrqq⟩ := one trace s place accounted
  obtain ⟨u, late, place'', after, kept', mrqq'⟩ := two _ t place' kept
  refine ⟨u, early ++ late, place'', Stage.andThen_ok.mpr ⟨t, early, late, before, after, rfl⟩, ?_,
    mrqq'.trans mrqq⟩
  rw [← List.append_assoc]
  exact kept'

theorem issueColCommand_keeps (positive : 0 < cfg.dramAtomSize) (j : Nat) :
    KeepsAccount cfg (DramT.issueColCommand cfg j) := by
  intro trace s place accounted
  have idle := KeepsAccount.idle trace s place accounted
  unfold DramT.issueColCommand
  split
  next => exact idle
  next mrq serves =>
    dsimp only
    split
    next ready =>
      have held : s.view (.serving j) = [mrq] := by simp [DramT.view, serves]
      have serving := accounted.custody.place_of_head held
      have used : mrq < s.nextReq := by
        by_contra fresh
        have nowhere := (accounted.unused mrq (Nat.le_of_not_lt fresh)).place
        rw [serving] at nowhere
        contradiction
      obtain ⟨popped, underway⟩ := accounted.underway mrq used
      have not_full : s.rwq.full = false := by
        simp only [DramT.columnReady, Bool.and_eq_true] at ready
        simpa using ready.1.2
      obtain ⟨rwq, sent, pipes, copies⟩ := transfer_ok accounted.pipes j
        (accounted.latency mrq used) not_full
      rw [sent]
      set moved : DramT := { s with rw := (s.reqs mrq).rw, rwq }.modifyReq mrq fun req =>
        { req with txbytes := req.txbytes + cfg.dramAtomSize } with is_moved
      have same : SameRequests moved (moved.startColumn cfg j (s.reqs mrq).rw) := .startColumn j _
      set started : DramT := moved.startColumn cfg j (s.reqs mrq).rw with is_started
      have new_req : started.reqs mrq =
        { s.reqs mrq with txbytes := (s.reqs mrq).txbytes + cfg.dramAtomSize } := by
        rw [same.reqs]
        exact Function.update_self ..
      have same_bursts : bursts cfg (started.reqs mrq) = bursts cfg (s.reqs mrq) := by
        rw [new_req, bursts, bursts]
      have tx : (started.reqs mrq).txbytes = (columns trace mrq + 1) * cfg.dramAtomSize := by
        rw [new_req, Nat.succ_mul, ← underway.txbytes]
      have started_serves : (started.bk j).mrq = some mrq := (same.mrq j).trans serves
      have view : started.view = s.view := same.view.trans (view_congr rfl rfl rfl fun _ => rfl)
      have bound : columns trace mrq + 1 ≤ bursts cfg (s.reqs mrq) := by
        have not_all := underway.placed.not.mp (by rw [serving]; exact Option.some_ne_none _)
        have some_left := underway.bound
        omega
      have released := releaseMrq_eq (j := j) positive (Nat.succ_pos _) tx
      have pipes' : Pipes cfg started := pipes.congr same.rwq same.rw same.mrqq same.returnq
      refine ⟨started.releaseMrq j mrq, _, Function.update place mrq
        (if columns trace mrq + 1 = bursts cfg (s.reqs mrq) then none else some (.serving j)), rfl, ?_,
          ?_⟩
      · have started_copies : ∀ r,
          started.rwq.copies r = s.rwq.copies r + if some mrq = some r then 1 else 0 := by
          rw [same.rwq]
          exact copies
        rw [released, same_bursts]
        by_cases last : columns trace mrq + 1 = bursts cfg (s.reqs mrq)
        · rw [if_pos last.ge, if_pos last]
          refine accounted.send
            (t := started.modifyBank j fun bank => { bank with mrq := none }) serving ?_
            (by rw [if_pos last]) same.nextReq same.reqs started_copies same.frfcfsScheduler
            (pipes'.congr rfl rfl rfl rfl) (s.reqs mrq).rw
          apply accounted.custody.leaves (.of_eq held)
          intro station
          rw [← view]
          exact view_release started_serves station
        · rw [if_neg (by omega), if_neg last, ← serving, Function.update_eq_self]
          refine accounted.send serving ?_ ?_ same.nextReq same.reqs started_copies
            same.frfcfsScheduler pipes' (s.reqs mrq).rw
          · rw [view]
            exact accounted.custody
          · rw [if_neg last, ← serving, Function.update_eq_self]
      · rw [released]
        split
        · exact same.mrqq
        · exact same.mrqq
    next => exact idle

theorem issueRowCommand_keeps (j : Nat) : KeepsAccount cfg (DramT.issueRowCommand cfg j) := by
  intro trace s place accounted
  have idle := KeepsAccount.idle trace s place accounted
  unfold DramT.issueRowCommand
  dsimp only
  split
  next => exact idle
  next mrq serves =>
    split
    next =>
      refine ⟨_, _, place, rfl, accounted.same ?_ (by simp [Command.isRow]), rfl⟩
      refine SameRequests.modifyBank ?_ j ?_
      · exact ⟨rfl, rfl, rfl, rfl, rfl, rfl, rfl, fun _ => rfl⟩
      · exact fun _ => rfl
    next =>
      split
      next =>
        refine ⟨_, _, place, rfl, accounted.same ?_ (by simp [Command.isRow]), rfl⟩
        refine SameRequests.modifyBank ?_ j ?_
        · exact ⟨rfl, rfl, rfl, rfl, rfl, rfl, rfl, fun _ => rfl⟩
        · exact fun _ => rfl
      next => exact idle

theorem issueFirst_keeps {issue : Nat → Stage DramT DramEvent DramFault} (each : ∀ j, KeepsAccount cfg (issue j))
    (banks : List Nat) : KeepsAccount cfg (DramT.issueFirst cfg issue banks) := by
  induction banks with
  | nil => exact .idle
  | cons i later ih =>
      intro trace s place accounted
      obtain ⟨t, shown, place', one, kept, mrqq⟩ := each ((i + s.prio) % cfg.nbk) trace s place accounted
      simp only [DramT.issueFirst, one]
      cases shown with
      | nil =>
          rw [List.append_nil] at kept
          obtain ⟨u, shown, place'', more, kept', mrqq'⟩ := ih trace t place' kept
          exact ⟨u, shown, place'', more, kept', mrqq'.trans mrqq⟩
      | cons event rest => exact ⟨t, event :: rest, place', rfl, kept, mrqq⟩

theorem unlessIssued_keeps {command : Stage DramT DramEvent DramFault} (keeps : KeepsAccount cfg command)
    (issued : Bool) : KeepsAccount cfg (DramT.unlessIssued issued command) := by
  cases issued with
  | true => exact .idle
  | false => exact keeps

theorem issueSingle_keeps (positive : 0 < cfg.dramAtomSize) (banks : List Nat) (col row : Bool) :
    KeepsAccount cfg (DramT.issueSingle cfg banks col row) := by
  induction banks generalizing col row with
  | nil => exact .idle
  | cons i later ih =>
      intro trace s place accounted
      obtain ⟨t, columns, place₁, one, kept₁, mrqq₁⟩ :=
        unlessIssued_keeps
          (issueColCommand_keeps positive ((i + s.prio) % cfg.nbk)) col trace s place accounted
      obtain ⟨u, rows, place₂, two, kept₂, mrqq₂⟩ :=
        unlessIssued_keeps (issueRowCommand_keeps ((i + s.prio) % cfg.nbk))
          (col || !columns.isEmpty || row) _ t place₁
          kept₁
      obtain ⟨v, rest, place₃, three, kept₃, mrqq₃⟩ :=
        ih (col || !columns.isEmpty) (row || !rows.isEmpty) _ u place₂ kept₂
      refine ⟨v, columns ++ rows ++ rest, place₃, ?_, by simpa using kept₃,
        (mrqq₃.trans mrqq₂).trans mrqq₁⟩
      rw [DramT.issueSingle]
      exact bind_ok.mpr ⟨_, one, bind_ok.mpr ⟨_, two, bind_ok.mpr ⟨_, three, rfl⟩⟩⟩

theorem issue_keeps (positive : 0 < cfg.dramAtomSize) : KeepsAccount cfg (DramT.issue cfg) := by
  unfold DramT.issue
  split
  · exact (issueFirst_keeps (issueColCommand_keeps positive) _).andThen
      (issueFirst_keeps issueRowCommand_keeps _)
  · exact issueSingle_keeps positive _ _ _

theorem tick_keeps : KeepsAccount cfg (DramT.tick cfg) := by
  intro trace s place accounted
  refine ⟨_, _, place, rfl, accounted.same ⟨rfl, rfl, rfl, rfl, rfl, rfl, rfl, fun b => ?_⟩ (by simp),
    rfl⟩
  simp only [DramT.decrement]
  split
  · rfl
  · rfl

theorem KeepsAccount.drained {stage : Stage DramT DramEvent DramFault} (keeps : KeepsAccount cfg stage)
    (accounted : Accounted cfg trace s place) (drained : Drained cfg s) :
    Ends (stage s) fun shown t => (∃ place', Accounted cfg (trace ++ shown) t place') ∧
      Drained cfg t := by
  obtain ⟨t, shown, place', ok, kept, mrqq⟩ := keeps trace s place accounted
  rw [ok]
  refine ⟨⟨place', kept⟩, fun frfcfs => ?_⟩
  rw [mrqq]
  exact drained frfcfs

theorem cycle_keeps (positive : 0 < cfg.dramAtomSize) (accounted : Accounted cfg trace s place)
    (arrivals : Arrivals cfg s) :
    Ends (s.cycle cfg) fun shown t => (∃ place', Accounted cfg (trace ++ shown) t place') ∧
      Drained cfg t := by
  have rest := (issue_keeps positive).andThen (tick_keeps.andThen .idle)
  obtain ⟨t, shown, arrived, kept, mrqq, sched, same⟩ := returnData_ok positive accounted
  have first : Ends (s.returnData cfg) fun early t => Accounted cfg (trace ++ early) t place ∧
    Arrivals cfg t := by
    rw [arrived]
    exact ⟨kept, arrivals.congr mrqq sched same⟩
  apply first.andThen
  rintro early t ⟨kept, arrivals⟩
  apply (scheduler_keeps kept arrivals).andThen
  rintro shown u ⟨⟨place', kept⟩, drained⟩
  apply (rest.drained kept drained).imp
  intro more v kept
  simpa only [List.append_assoc] using kept

end GpgpuSim.Dram
