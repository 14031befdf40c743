import Mathlib.Tactic.Common

/-!
# The answer to a sync request

`syncresponder.c`: the topics of a transport's subscriptions are sent in replies of a given number of topics, all at
once or one reply for each timer. The number is divided by before it is looked at, and the sources of the
subscriptions are compared with `strcmp`.
-/

namespace OpenMama.SyncResponder

open List

structure Subscription where
  transportIndex : Int
  source : Option String
  symbol : Option String
  type : Int

/-- A request. A number that is missing reads 0. -/
structure Request where
  source : Option String := none
  topicsPerMsg : Option UInt16 := none
  delay : Option Float := none
  duration : Option Float := none

abbrev Topics := List (String × Int)

inductive Event where
  | reply (topics : Topics)
  | timer
  | ended
deriving DecidableEq

/-- `mamaTransportImpl_getTopicsAndTypesForSource`; `strcmp` fails on a NULL source. -/
def getTopicsAndTypesForSource (index : Int) (source : Option String) : List Subscription → Option Topics
  | [] => some []
  | subsc :: subscs =>
    if subsc.transportIndex = index then
      match subsc.source with
      | none => none
      | some own => (getTopicsAndTypesForSource index source subscs).map fun topics =>
        if source = none ∨ source = some own then (subsc.symbol.map (·, subsc.type)).toList ++ topics else topics
    else getTopicsAndTypesForSource index source subscs

def sendNextMessage (topicsPerMsg : Nat) (left : Topics) : Topics × Topics :=
  let topicsToSend := if left.length > topicsPerMsg then topicsPerMsg else left.length
  (left.take topicsToSend, left.drop topicsToSend)

def sendAll (topicsPerMsg : Nat) : Nat → Topics → Option (List Event)
  | 0, _ => none
  | fuel + 1, left =>
    let sent := sendNextMessage topicsPerMsg left
    (if sent.2.length ≠ 0 then sendAll topicsPerMsg fuel sent.2 else some []).map (.reply sent.1 :: ·)

/-- `timerCB`, and what happens when the timer that it creates fires. -/
def timerCB (responseInterval : Float) (topicsPerMsg : Nat) : Nat → Topics → Option (List Event)
  | 0, _ => none
  | fuel + 1, left =>
    if responseInterval == 0 then (sendAll topicsPerMsg (fuel + 1) left).map (· ++ [.ended])
    else
      let sent := sendNextMessage topicsPerMsg left
      (if sent.2.length ≠ 0 then (timerCB responseInterval topicsPerMsg fuel sent.2).map (.timer :: ·)
        else some [.ended]).map (.reply sent.1 :: ·)

/-- `setup` and `mamaSyncCommand_run`. The number of intervals is a quotient of integers, which fails for 0. -/
def respond (subscs : List Subscription) (index : Int) (request : Request) (fuel : Nat) : Option (List Event) :=
  (getTopicsAndTypesForSource index request.source subscs).bind fun topics =>
    let topicsPerMsg := (request.topicsPerMsg.getD 0).toNat
    if topicsPerMsg = 0 then none
    else
      let intervals := topics.length / topicsPerMsg
      let responseInterval := if intervals > 0 then 2 * request.duration.getD 0 / intervals.toFloat else 0
      if topics.length = 0 then some [.ended]
      else if request.delay.getD 0 != 0 then (timerCB responseInterval topicsPerMsg fuel topics).map (.timer :: ·)
      else timerCB responseInterval topicsPerMsg fuel topics

/-! ### What is asked of the answer -/

def matching (subscs : List Subscription) (index : Int) (source : Option String) : Topics :=
  subscs.filterMap fun subsc =>
    if subsc.transportIndex = index ∧ (source = none ∨ source = subsc.source) then subsc.symbol.map (·, subsc.type)
    else none

def replies (events : List Event) : List Topics :=
  events.filterMap fun
    | .reply topics => some topics
    | _ => none

/-- The topics are sent in order, in replies that are not too long and not empty, and nothing has ended. -/
structure Sends (n : Nat) (topics : Topics) (events : List Event) : Prop where
  flatten : (replies events).flatten = topics
  length_le : 0 < n → ∀ reply ∈ replies events, reply.length ≤ n
  nonempty : [] ∉ replies events
  going : .ended ∉ events

def Answers (subscs : List Subscription) (index : Int) (request : Request) : Prop :=
  ∃ fuel events, respond subscs index request fuel = some (events ++ [.ended]) ∧
    Sends (request.topicsPerMsg.getD 0).toNat (matching subscs index request.source) events

variable {n : Nat} {left : Topics} {events : List Event}

theorem getTopicsAndTypesForSource_eq (index : Int) (source : Option String) (subscs : List Subscription) :
    getTopicsAndTypesForSource index source subscs =
      if ∀ subsc ∈ subscs, subsc.transportIndex = index → subsc.source ≠ none then
        some (matching subscs index source) else none := by
  induction subscs with
  | nil => rfl
  | cons subsc _ ih =>
    rw [getTopicsAndTypesForSource, ih]
    simp only [forall_mem_cons, matching, filterMap_cons]
    by_cases hindex : subsc.transportIndex = index
    · cases hsource : subsc.source with
      | none => simp [hindex]
      | some own =>
        cases hsymbol : subsc.symbol <;> by_cases hmatch : source = none ∨ source = some own <;>
          simp only [hindex, hmatch] <;> split <;> simp_all
    · simp [hindex]

theorem sendNextMessage_spec (hn : 0 < n) (hleft : left ≠ []) :
    let sent := sendNextMessage n left
    sent.1 ++ sent.2 = left ∧ sent.1.length ≤ n ∧ 0 < sent.1.length ∧ sent.2.length < left.length := by
  have hlength : 0 < left.length := length_pos_iff.mpr hleft
  refine ⟨take_append_drop _ _, ?_, ?_, ?_⟩ <;> simp only [sendNextMessage, length_take, length_drop] <;> split <;> omega

theorem Sends.reply (hn : 0 < n) (hleft : left ≠ []) (h : Sends n (sendNextMessage n left).2 events) :
    Sends n left (.reply (sendNextMessage n left).1 :: events) := by
  obtain ⟨hsplit, hlength, hpos, -⟩ := sendNextMessage_spec hn hleft
  have hreplies : replies (.reply (sendNextMessage n left).1 :: events) =
      (sendNextMessage n left).1 :: replies events := rfl
  refine ⟨?_, ?_, ?_, by simpa using h.going⟩ <;> rw [hreplies]
  · rw [flatten_cons, h.flatten, hsplit]
  · exact fun _ => forall_mem_cons.mpr ⟨hlength, h.length_le hn⟩
  · exact not_mem_cons_of_ne_of_not_mem (ne_nil_of_length_pos hpos).symm h.nonempty

theorem Sends.timer (h : Sends n left events) : Sends n left (.timer :: events) :=
  ⟨h.flatten, h.length_le, h.nonempty, by simpa using h.going⟩

theorem sends_nil (h : left.length = 0) : Sends n left [] :=
  ⟨(length_eq_zero_iff.mp h).symm, fun _ => nofun, nofun, nofun⟩

theorem sendAll_sends (hn : 0 < n) {fuel : Nat} (hfuel : left.length ≤ fuel) (hleft : left ≠ []) :
    ∃ events, sendAll n fuel left = some events ∧ Sends n left events := by
  induction fuel generalizing left with
  | zero => exact absurd (length_eq_zero_iff.mp (Nat.le_zero.mp hfuel)) hleft
  | succ _ ih =>
    obtain ⟨-, -, -, hshorter⟩ := sendNextMessage_spec hn hleft
    rw [sendAll]
    split
    next hmore =>
      obtain ⟨events, heq, hsends⟩ := ih (by omega) (ne_nil_of_length_pos (Nat.pos_of_ne_zero hmore))
      exact ⟨_, by rw [heq]; rfl, hsends.reply hn hleft⟩
    next hdone => exact ⟨_, rfl, (sends_nil (not_not.mp hdone)).reply hn hleft⟩

theorem timerCB_sends (responseInterval : Float) (hn : 0 < n) {fuel : Nat} (hfuel : left.length ≤ fuel)
    (hleft : left ≠ []) : ∃ events, timerCB responseInterval n fuel left = some (events ++ [.ended]) ∧ Sends n left events := by
  induction fuel generalizing left with
  | zero => exact absurd (length_eq_zero_iff.mp (Nat.le_zero.mp hfuel)) hleft
  | succ _ ih =>
    obtain ⟨-, -, -, hshorter⟩ := sendNextMessage_spec hn hleft
    rw [timerCB]
    split
    · obtain ⟨events, heq, hsends⟩ := sendAll_sends hn hfuel hleft
      exact ⟨events, by rw [heq]; rfl, hsends⟩
    · dsimp only
      split
      next hmore =>
        obtain ⟨events, heq, hsends⟩ := ih (by omega) (ne_nil_of_length_pos (Nat.pos_of_ne_zero hmore))
        exact ⟨_, by rw [heq]; rfl, hsends.timer.reply hn hleft⟩
      next hdone => exact ⟨_, rfl, (sends_nil (not_not.mp hdone)).reply hn hleft⟩

/-- A sync request is answered exactly if it asks for replies of some topics and no subscription that is looked at is
without a source. -/
theorem answers_iff (subscs : List Subscription) (index : Int) (request : Request) :
    Answers subscs index request ↔ request.topicsPerMsg.getD 0 ≠ 0 ∧
      ∀ subsc ∈ subscs, subsc.transportIndex = index → subsc.source ≠ none := by
  have hzero : (request.topicsPerMsg.getD 0).toNat = 0 ↔ request.topicsPerMsg.getD 0 = 0 := UInt16.toNat_inj (b := 0)
  have htopics := getTopicsAndTypesForSource_eq index request.source subscs
  constructor
  · rintro ⟨_, events, heq, -⟩
    rw [respond, htopics, Option.bind_eq_some_iff] at heq
    obtain ⟨_, hfound, hsent⟩ := heq
    refine ⟨fun hnone => ?_, (Option.ite_none_right_eq_some.mp hfound).1⟩
    rw [if_pos (hzero.mpr hnone)] at hsent
    cases hsent
  · rintro ⟨hper, hsources⟩
    rw [if_pos hsources] at htopics
    have hn := Nat.pos_of_ne_zero fun h => hper (hzero.mp h)
    refine ⟨(matching subscs index request.source).length, ?_⟩
    rw [respond, htopics, Option.bind_some, if_neg (Nat.ne_of_gt hn)]
    dsimp only
    split
    · exact ⟨[], rfl, sends_nil ‹_›⟩
    next hsome =>
      obtain ⟨events, heq, hsends⟩ := timerCB_sends _ hn (Nat.le_refl _) fun hnil =>
        hsome (length_eq_zero_iff.mpr hnil)
      split
      · exact ⟨.timer :: events, by rw [heq]; rfl, hsends.timer⟩
      · exact ⟨events, heq, hsends⟩

def sampleSubscs : List Subscription :=
  [⟨0, some "S", some "A", 0⟩, ⟨0, some "T", some "B", 1⟩, ⟨0, some "S", some "C", 2⟩, ⟨1, none, some "D", 0⟩]

theorem answers_sampleSubscs : Answers sampleSubscs 0 { topicsPerMsg := some 1, duration := some 3 } :=
  (answers_iff sampleSubscs 0 { topicsPerMsg := some 1, duration := some 3 }).mpr
    ⟨by decide, by simp [sampleSubscs]⟩

theorem not_answers : ¬Answers sampleSubscs 0 {} ∧ ¬Answers sampleSubscs 1 { topicsPerMsg := some 1 } := by
  constructor <;>
  · rintro ⟨_, _, ⟨⟩, -⟩

end OpenMama.SyncResponder
