/-
# The operations of a stream, in order

A stream's writes and its `Finish` are operations.  They are submitted in an order and the line
keeps it: what is queued or on its way is always the last part of what was submitted
(`InOrder`).  An offer changes the bytes of an operation but not its mark, which is whose
operation it is and whether it ends the stream; so the order is one of marks.

No assumption is made on the transport.  The other module-wide notion, `NoLate`, is one on the front
end: nothing is submitted for a stream after its `Finish`.
-/
import QuicheH3.Life.Line

namespace QuicheH3

open Lib

/-! ## 1. What was submitted -/

/-- The operation the event submits for stream `id`. -/
def Event.asks (id : Nat) : Event → Option SendOp
  | .submit (.send i buf t p) => if i = id then some (.write buf t p) else none
  | .submit (.finish i t) => if i = id then some (.finish t) else none
  | _ => none

/-- The operations submitted for stream `id`, oldest first. -/
def submittedOps (id : Nat) (tr : List Event) : List SendOp := picked (Event.asks id) tr

/-- The operations of a list of commands. -/
def opsAmong (cs : List DriverCommand) : List SendOp := cs.filterMap fun c => c.op.map Prod.snd

/-- Whose operation it is, and whether it ends the stream. -/
def SendOp.mark : SendOp → Nat × Bool
  | .write _ t _ => (t, false)
  | .finish t => (t, true)

theorem SendOp.mark_tok (op : SendOp) : op.mark.1 = op.tok := by cases op <;> rfl

/-- The stream's `Finish` was submitted. -/
def Finishing (id : Nat) (tr : List Event) : Prop := ∃ t, .submit (.finish id t) ∈ tr

/-- No operation of stream `id` is submitted after its `Finish`. -/
def NoLate (id : Nat) (e : Event) (pre : List Event) : Prop :=
  (e.asks id).isSome → ¬ Finishing id pre

def Event.finishes (id : Nat) : Event → Bool
  | .submit (.finish i _) => i == id
  | _ => false

section Submitted

variable {id t : Nat} {op : SendOp} {tr tr' : List Event} {cs : List DriverCommand}

theorem finishing_iff : Finishing id tr ↔ tr.any (Event.finishes id) = true := by
  rw [List.any_eq_true]
  constructor
  · rintro ⟨t, ht⟩
    exact ⟨_, ht, by simp [Event.finishes]⟩
  · rintro ⟨e, he, hx⟩
    unfold Event.finishes at hx
    split at hx
    · cases eq_of_beq hx
      exact ⟨_, he⟩
    · cases hx

instance : Decidable (Finishing id tr) := decidable_of_iff _ finishing_iff.symm

instance (e : Event) (pre : List Event) : Decidable (NoLate id e pre) :=
  inferInstanceAs (Decidable (_ → _))

theorem Finishing.mono (h : Finishing id tr) (hs : tr ⊆ tr') : Finishing id tr' := by
  obtain ⟨t, ht⟩ := h
  exact ⟨t, hs ht⟩

/-- An operation comes with a command of its stream, which has its completion. -/
theorem submit_of_asks {e : Event} (h : e.asks id = some op) :
    ∃ cmd, e = .submit cmd ∧ cmd.op = some (id, op) ∧ cmd.tok = some op.tok ∧
      cmd.streamId = some id := by
  unfold Event.asks at h
  split at h
  · split at h
    · rename_i hi
      cases h
      subst hi
      exact ⟨_, rfl, rfl, rfl, rfl⟩
    · cases h
  · split at h
    · rename_i hi
      cases h
      subst hi
      exact ⟨_, rfl, rfl, rfl, rfl⟩
    · cases h
  · cases h

theorem asks_submit {cmd : DriverCommand} (hi : cmd.streamId = some id) :
    (Event.submit cmd).asks id = cmd.op.map Prod.snd := by
  cases cmd <;> first | rfl | (cases hi; simp [Event.asks, DriverCommand.op])

theorem mem_submittedOps_finish : .finish t ∈ submittedOps id tr ↔ .submit (.finish id t) ∈ tr := by
  unfold submittedOps
  rw [mem_picked]
  constructor
  · rintro ⟨e, he, hx⟩
    obtain ⟨cmd, rfl, hop, -⟩ := submit_of_asks hx
    cases cmd <;> simp only [DriverCommand.op, Option.some.injEq, Prod.mk.injEq, reduceCtorEq,
      and_false, SendOp.finish.injEq] at hop
    obtain ⟨rfl, rfl⟩ := hop
    exact he
  · intro he
    exact ⟨_, he, by simp [Event.asks]⟩

theorem submitted_of_mem (h : op ∈ submittedOps id tr) : Submitted op.tok id tr := by
  obtain ⟨e, he, hx⟩ := mem_picked.mp h
  obtain ⟨cmd, rfl, -, ht, hi⟩ := submit_of_asks hx
  exact ⟨cmd, he, ht, hi⟩

/-- Only submissions for the stream add to its operations. -/
theorem submittedOps_beside {tr0 : List Event} (hg : Grows (Event.beside id tr0) tr tr') :
    submittedOps id tr' = submittedOps id tr := by
  refine (blind_picked fun e he => ?_).grows hg
  by_contra hx
  obtain ⟨op, hop⟩ := Option.ne_none_iff_exists'.mp hx
  obtain ⟨cmd, rfl, -, -, hi⟩ := submit_of_asks hop
  exact he hi

/-- The event is no submission. -/
def Event.unasked (e : Event) : Prop := ∀ cmd, e ≠ .submit cmd

theorem submittedOps_unasked (hg : Grows Event.unasked tr tr') :
    submittedOps id tr' = submittedOps id tr := by
  refine (blind_picked fun e he => ?_).grows hg
  by_contra hx
  obtain ⟨op, hop⟩ := Option.ne_none_iff_exists'.mp hx
  obtain ⟨cmd, rfl, -⟩ := submit_of_asks hop
  exact he cmd rfl

/-- The operations of a stretch of history are those of the stream's commands in it. -/
theorem picked_asks : ∀ evs : List Event,
    picked (Event.asks id) evs = opsAmong (cmdsOf id (submitted evs)).reverse
  | [] => rfl
  | e :: evs => by
    rw [picked_cons, picked_asks evs]
    cases e with
    | submit cmd =>
      by_cases hi : cmd.streamId = some id
      · have hc : cmdsOf id (submitted (.submit cmd :: evs)) =
            cmd :: cmdsOf id (submitted evs) := by simp [cmdsOf, submitted, hi]
        rw [hc, asks_submit hi]
        cases hop : cmd.op <;> simp [opsAmong, hop]
      · have hc : cmdsOf id (submitted (.submit cmd :: evs)) = cmdsOf id (submitted evs) := by
          simp [cmdsOf, submitted, hi]
        have hn : (Event.submit cmd).asks id = none := by
          by_contra hx
          obtain ⟨op, hop⟩ := Option.ne_none_iff_exists'.mp hx
          obtain ⟨cmd', he, -, -, hi'⟩ := submit_of_asks hop
          cases he
          exact hi hi'
        rw [hc, hn, Option.toList_none, List.append_nil]
    | _ => exact List.append_nil _

/-- What a batch of front-end actions submits. -/
theorem submittedOps_front {v : Life} (hf : Life.Front id v cs tr) :
    submittedOps id tr = submittedOps id v.hist ++ opsAmong cs := by
  obtain ⟨evs, rfl, -⟩ := hf.grows
  have hrec : cmdsOf id (submitted evs) = cs.reverse := by
    have h := hf.record
    simp only [submitted, cmdsOf, List.filterMap_append, List.filter_append] at h
    exact List.append_cancel_right h
  unfold submittedOps
  rw [picked_append, picked_asks evs, hrec, List.reverse_reverse]

/-- After a `Finish` a batch of front-end actions submits nothing. -/
theorem opsAmong_eq_nil {v : Life} (hf : Life.Front id v cs tr) (hP : Always (NoLate id) tr)
    (hfin : Finishing id v.hist) : opsAmong cs = [] := by
  have hsub := submittedOps_front hf
  obtain ⟨evs, rfl, -⟩ := hf.grows
  unfold submittedOps at hsub
  rw [picked_append] at hsub
  rw [← List.append_cancel_left hsub]
  refine picked_eq_nil fun e he => ?_
  by_contra hx
  obtain ⟨post, mid, rfl⟩ := List.append_of_mem he
  have hlate := always_iff.mp hP post e (mid ++ v.hist) (by simp)
  exact hlate (Option.isSome_iff_ne_none.mpr hx) (hfin.mono (List.subset_append_right _ _))

/-- The completions of new operations are new. -/
theorem fresh_opsAmong {v : Life} (hf : Life.Front id v cs tr) (hop : op ∈ opsAmong cs) (i : Nat) :
    ¬ Submitted op.tok i v.hist := by
  obtain ⟨cmd, hcmd, hx⟩ := List.mem_filterMap.mp hop
  refine hf.fresh cmd hcmd op.tok ?_ i
  cases cmd <;> cases hx <;> rfl

/-- **The `Finish` is the last operation**, if nothing is submitted after it. -/
theorem finish_last (hP : Always (NoLate id) tr) : ∀ {done rest : List SendOp},
    submittedOps id tr = done ++ .finish t :: rest → rest = [] := by
  induction tr with
  | nil =>
    intro done rest h
    simp [submittedOps, picked] at h
  | cons e tr ih =>
    intro done rest h
    unfold submittedOps at h
    rw [picked_cons] at h
    cases ha : e.asks id with
    | none =>
      rw [ha, Option.toList_none, List.append_nil] at h
      exact ih hP.2 h
    | some op =>
      -- the event submits an operation, so no `Finish` came before it
      rw [ha, Option.toList_some] at h
      rcases List.eq_nil_or_concat rest with hr | ⟨rest', op', rfl⟩
      · exact hr
      · rw [List.concat_eq_append, ← List.cons_append, ← List.append_assoc] at h
        have hx := (List.append_inj' h rfl).1
        have hm : .finish t ∈ submittedOps id tr := by
          unfold submittedOps
          rw [hx]
          simp
        exact absurd ⟨t, mem_submittedOps_finish.mp hm⟩ (hP.1 (by rw [ha]; rfl))

end Submitted

/-! ## 2. What is on the line -/

namespace Line

/-- The operations queued on the entry. -/
def queued (l : Line) : List SendOp := l.send.elim [] fun s => s.sendOps

/-- The operations on the line, the next one first. -/
def ops (l : Line) : List SendOp := l.queued ++ opsAmong l.cmds

/-- What is on the line is the last part of what was submitted; an entry that has ended has nothing
queued. -/
structure InOrder (id : Nat) (l : Line) : Prop where
  order : l.ops.map SendOp.mark <:+ (submittedOps id l.hist).map SendOp.mark
  toks : ((submittedOps id l.hist).map SendOp.tok).Nodup
  ended : ∀ s, l.send = some s → s.terminal.isSome → s.sendOps = []

variable {id t : Nat} {ok : Bytes → Nat → Prop} {l l' : Line} {s s' : StreamSendState}

theorem queued_some (hs : l.send = some s) : l.queued = s.sendOps := by
  unfold queued
  rw [hs]
  rfl

theorem queued_none (hs : l.send = none) : l.queued = [] := by
  unfold queued
  rw [hs]
  rfl

theorem ops_some (hs : l.send = some s) : l.ops = s.sendOps ++ opsAmong l.cmds := by
  unfold ops
  rw [queued_some hs]

theorem opsAmong_toks (cs : List DriverCommand) :
    (opsAmong cs).map SendOp.tok = cs.filterMap DriverCommand.tok := by
  unfold opsAmong
  rw [List.map_filterMap]
  refine List.filterMap_congr fun cmd _ => ?_
  cases cmd <;> rfl

theorem opsAmong_cons_none {cmd : DriverCommand} {rest : List DriverCommand} (h : cmd.op = none) :
    opsAmong (cmd :: rest) = opsAmong rest := by simp [opsAmong, h]

theorem opsAmong_cons_some {cmd : DriverCommand} {rest : List DriverCommand} {op : SendOp}
    (h : cmd.op = some (id, op)) : opsAmong (cmd :: rest) = op :: opsAmong rest := by
  simp [opsAmong, h]

namespace InOrder

/-- Nothing is submitted and operations leave at the front. -/
theorem drop (h : InOrder id l) (hsub : submittedOps id l'.hist = submittedOps id l.hist)
    (hops : l'.ops.map SendOp.mark <:+ l.ops.map SendOp.mark)
    (he : ∀ s, l'.send = some s → s.terminal.isSome → s.sendOps = []) : InOrder id l' :=
  ⟨hsub ▸ hops.trans h.order, hsub ▸ h.toks, he⟩

/-- The entry goes on, with the last part of its operations. -/
theorem put (h : InOrder id l) (hsub : submittedOps id l'.hist = submittedOps id l.hist)
    (hs : l.send = some s) (hs' : l'.send = some s') (hc : l'.cmds = l.cmds)
    (hops : s'.sendOps.map SendOp.mark <:+ s.sendOps.map SendOp.mark)
    (he : s'.terminal.isSome → s'.sendOps = []) : InOrder id l' := by
  refine h.drop hsub ?_ fun x hx => ?_
  · rw [ops_some hs, ops_some hs', hc, List.map_append, List.map_append]
    obtain ⟨done, hdone⟩ := hops
    exact ⟨done, by rw [← List.append_assoc, hdone]⟩
  · cases hs'.symm.trans hx
    exact he

/-- The same with an entry that has not ended. -/
theorem send (h : InOrder id l) (hsub : submittedOps id l'.hist = submittedOps id l.hist)
    (hs : l.send = some s) (ho : s.Open) (hs' : l'.send = some s') (hc : l'.cmds = l.cmds)
    (ht : s'.terminal = s.terminal)
    (hops : s'.sendOps.map SendOp.mark <:+ s.sendOps.map SendOp.mark) : InOrder id l' := by
  refine h.put hsub hs hs' hc hops fun hx => ?_
  rw [ht, ho.terminal] at hx
  cases hx

/-- An entry is made where there is none. -/
theorem new (h : InOrder id l) (hs : l.send = none) {c : Nat}
    (hsub : submittedOps id l'.hist = submittedOps id l.hist) (hs' : l'.send = some (.new c))
    (hc : l'.cmds = l.cmds) : InOrder id l' := by
  refine h.drop hsub ?_ fun x hx => ?_
  · rw [ops_some hs', hc]
    unfold ops
    rw [queued_none hs]
    exact List.suffix_rfl
  · cases hs'.symm.trans hx
    exact fun _ => rfl

/-- The entry goes. -/
theorem gone (h : InOrder id l) (hsub : submittedOps id l'.hist = submittedOps id l.hist)
    (hs' : l'.send = none) (hc : l'.cmds = l.cmds) : InOrder id l' := by
  refine h.drop hsub ?_ fun x hx => ?_
  · unfold ops
    rw [queued_none hs', hc, List.nil_append, List.map_append]
    exact List.suffix_append _ _
  · cases hs'.symm.trans hx

theorem front_ops (v : Life) (cs : List DriverCommand) (tr : List Event) :
    ({ v.line with cmds := v.line.cmds ++ cs, hist := tr } : Line).ops =
      v.line.ops ++ opsAmong cs := by
  simp only [ops, queued, opsAmong, List.filterMap_append, List.append_assoc]

/-- Operations enter at the back, with completions of their own. -/
theorem front {v : Life} {cs : List DriverCommand} {tr : List Event} (h : InOrder id v.line)
    (hf : Life.Front id v cs tr) :
    InOrder id { v.line with cmds := v.line.cmds ++ cs, hist := tr } := by
  have hsub : submittedOps id tr = submittedOps id v.line.hist ++ opsAmong cs :=
    submittedOps_front hf
  refine ⟨?_, ?_, h.ended⟩
  · obtain ⟨done, hdone⟩ := h.order
    refine ⟨done, ?_⟩
    rw [front_ops, hsub, List.map_append, List.map_append, ← List.append_assoc, hdone]
  · rw [hsub, List.map_append, opsAmong_toks]
    refine List.nodup_append'.mpr ⟨h.toks, hf.toks, fun t hold hnew => ?_⟩
    obtain ⟨op, hop, rfl⟩ := List.mem_map.mp hold
    obtain ⟨cmd, hcmd, htok⟩ := List.mem_filterMap.mp hnew
    exact hf.fresh cmd hcmd _ htok id (submitted_of_mem hop)

/-- **Every step keeps the order.** -/
theorem move (h : InOrder id l) (hm : Move id ok l l') : InOrder id l' := by
  have hone (e : Event) (tr : List Event) (he : e.unasked) :
      submittedOps id (e :: tr) = submittedOps id tr :=
    submittedOps_unasked (.one he)
  have htwo (e e' : Event) (tr : List Event) (he : e.unasked) (he' : e'.unasked) :
      submittedOps id (e :: e' :: tr) = submittedOps id tr :=
    submittedOps_unasked (.cons he (.one he'))
  cases hm with
  | beside tr hg =>
    have hsub := submittedOps_beside hg
    exact ⟨hsub ▸ h.order, hsub ▸ h.toks, h.ended⟩
  | front v cs tr hv hf =>
    subst hv
    exact h.front hf
  | skip cmd rest hc hop =>
    refine h.drop rfl ?_ h.ended
    unfold ops
    rw [hc, opsAmong_cons_none hop]
    exact List.suffix_rfl
  | queue cmd rest op s hc hop hs ht =>
    refine h.drop rfl ?_ fun x hx hterm => ?_
    · rw [ops_some hs, ops_some rfl, hc, opsAmong_cons_some hop, List.append_assoc]
      exact List.suffix_rfl
    · cases hx
      rw [ht] at hterm
      cases hterm
  | refuse cmd rest op s e hc hop hs ht =>
    -- an entry that has ended has nothing queued, so the operation is the next one
    have hnil := h.ended s hs (by rw [ht]; rfl)
    refine h.drop (hone _ _ nofun) ?_ fun x hx => ?_
    · rw [ops_some hs, ops_some rfl, hc, opsAmong_cons_some hop, hnil]
      exact List.suffix_cons _ _
    · cases hx
      exact h.ended s hs
  | make c hs hn => exact h.new hs (hone _ _ nofun) rfl rfl
  | opened c hs hn => exact h.new hs (htwo _ _ _ nofun nofun) rfl rfl
  | retained c e hn => exact h.drop (htwo _ _ _ nofun nofun) List.suffix_rfl h.ended
  | lapse c hs hf => exact h.gone (hone _ _ nofun) rfl rfl
  | reclaim s hs hf =>
    refine h.gone (submittedOps_unasked (.cons nofun ?_)) rfl rfl
    exact World.grows_cancelled _ _ fun _ _ => nofun
  | ended s e reset fin tr hs ho hc =>
    have hset : Grows Event.unasked l.hist tr := by
      cases hc with
      | old => exact .refl _ _
      | new => exact .one nofun
    have hres : Grows Event.unasked tr (resolved s.sendOps (.error e) tr) :=
      World.grows_resolved _ _ _ fun _ _ => nofun
    exact h.put (submittedOps_unasked (hset.trans hres)) hs rfl rfl List.nil_suffix fun _ => rfl
  | served s _ hs | emptyHeld s _ hs => exact h.put rfl hs rfl rfl List.suffix_rfl (h.ended s hs)
  | sendErr s data fin err hs ho hw => exact h.drop (hone _ _ nofun) List.suffix_rfl h.ended
  | flush s buf fin n hs ho hh hr hn hm =>
    exact h.send (hone _ _ nofun) hs ho rfl rfl rfl List.suffix_rfl
  | flushFin _ _ _ _ _ hs ho _ _ hop | loneFin _ _ _ _ hs ho _ hop
  | accept _ _ _ _ _ _ hs ho _ hop =>
    refine h.send (htwo _ _ _ nofun nofun) hs ho rfl rfl rfl ?_
    rw [hop]
    exact List.suffix_cons _ _
  | emptyFin _ _ _ _ hs ho _ _ hop | hold _ _ _ _ _ hs ho _ hop | skipWrite _ _ _ _ _ hs ho _ hop =>
    refine h.send (hone _ _ nofun) hs ho rfl rfl rfl ?_
    rw [hop]
    exact List.suffix_cons _ _
  | offer s buf t p ops n hs ho hh hop hn hm =>
    refine h.send (hone _ _ nofun) hs ho rfl rfl rfl ?_
    rw [hop]
    exact List.suffix_rfl

theorem init (id : Nat) : InOrder id Life.fresh.line :=
  ⟨List.suffix_rfl, List.nodup_nil, nofun⟩

/-- An operation on the line was submitted. -/
theorem submitted_ops (h : InOrder id l) {op : SendOp} (hm : op ∈ l.ops) :
    ∃ op' ∈ submittedOps id l.hist, op'.mark = op.mark :=
  List.mem_map.mp (h.order.subset (List.mem_map_of_mem hm))

theorem submitted_finish (h : InOrder id l) (hm : .finish t ∈ l.ops) :
    .submit (.finish id t) ∈ l.hist := by
  obtain ⟨op, hop, hmark⟩ := h.submitted_ops hm
  cases op with
  | write buf t' p => cases hmark
  | finish t' =>
    cases hmark
    exact mem_submittedOps_finish.mp hop

/-- A write has not the completion of a `Finish`. -/
theorem write_ne_finish (h : InOrder id l) {buf : WriteBuf} {p : Option Nat}
    (hm : .write buf t p ∈ l.ops) : .submit (.finish id t) ∉ l.hist := by
  intro hf
  obtain ⟨op, hop, hmark⟩ := h.submitted_ops hm
  have htok : op.tok = SendOp.tok (.finish t) := by
    rw [← op.mark_tok, hmark]
    rfl
  have hsame := List.inj_on_of_nodup_map h.toks hop (mem_submittedOps_finish.mpr hf) htok
  rw [hsame] at hmark
  cases hmark

/-- **A `Finish` at the front is alone on the line.** -/
theorem finish_alone (h : InOrder id l) (hP : Always (NoLate id) l.hist) {rest : List SendOp}
    (hops : l.ops = .finish t :: rest) : rest = [] := by
  obtain ⟨done, hdone⟩ := h.order
  rw [hops] at hdone
  obtain ⟨done', last, hsub, -, hlast⟩ := List.append_eq_map_iff.mp hdone
  obtain ⟨op, rest', hlast', hmark, hrest⟩ := List.map_eq_cons_iff.mp hlast
  cases op with
  | write buf t' p => cases hmark
  | finish t' =>
    rw [hlast'] at hsub
    have hnil := finish_last hP hsub
    rw [hnil] at hrest
    exact (List.map_eq_nil_iff.mp hrest.symm)

end InOrder

end Line

end QuicheH3
