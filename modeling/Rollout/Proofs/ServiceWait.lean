import Mathlib.Data.Rat.Floor
import Mathlib.Tactic.Linarith
import Rollout.Host.Service
import Rollout.Proofs.Action

namespace Rollout.Service

open Text

/-- What the answer to a query means to one who waits for a state. -/
inductive Answer
  | wanted
  | other
  | failure
  deriving DecidableEq, Repr

def answerIn (name wanted : Text) : Option Reply → Answer
  | none => .failure
  | some reply =>
    if reply.code ≠ 0 then .failure
    else if firstOccurrence? stateAt (reply.output name) = some wanted then .wanted
    else .other

def answerAt (name wanted : Text) (w : World) (i : Nat) : Answer :=
  answerIn name wanted w.replies[i]?

/-- How often a wait with a time limit asks at most: once for each pause that begins before the time
is over, and once more. -/
def queryLimit (poll : Duration) (timeout : Rat) : Nat := ⌈timeout / poll.seconds⌉₊ + 1

def failureDetail (name : Text) : Option Reply → Text
  | none => Refusal.noSuchFile.message "sc".toList
  | some reply => trim (reply.output name)

def timedOut (name wanted : Text) : Fault := .script { cause := .serviceTimeout name wanted }

def afterQueries (poll : Duration) (name : Text) (n : Nat) (w : World) : World :=
  { w with
    replies := w.replies.drop n
    clock := w.clock + (n - 1 : Nat) * poll.seconds
    journal := w.journal ++
      (List.replicate n (.control ["query".toList, name])).intersperse (.pause poll) }

def afterRound (poll : Duration) (name : Text) (w : World) : World :=
  { w with
    replies := w.replies.tail
    clock := w.clock + poll.seconds
    journal := w.journal ++ [.control ["query".toList, name], .pause poll] }

variable {poll : Duration} {name wanted : Text} {deadline : Option Rat} {w : World}

theorem afterQueries_one (poll : Duration) (name : Text) (w : World) :
    afterQueries poll name 1 w =
      { w with
        replies := w.replies.tail
        journal := w.journal ++ [.control ["query".toList, name]] } := by
  simp [afterQueries]

theorem afterQueries_afterRound (n : Nat) :
    afterQueries poll name (n + 1) (afterRound poll name w) = afterQueries poll name (n + 2) w := by
  have hclock : w.clock + poll.seconds + (n : Nat) * poll.seconds =
      w.clock + (n + 1 : Nat) * poll.seconds := by
    push_cast
    ring
  simp [afterQueries, afterRound, List.replicate_succ, hclock]

theorem state_nil (poll : Duration) (h : w.replies = []) :
    state name w =
      .error (.serviceOperation name (some (failureDetail name none)))
        (afterQueries poll name 1 w) := by
  obtain ⟨⟩ := w
  subst h
  rw [afterQueries_one]
  rfl

theorem state_cons (poll : Duration) {reply : Reply} {rest : List Reply}
    (h : w.replies = reply :: rest) :
    state name w =
      if reply.code = 0 then
        .ok (firstOccurrence? stateAt (reply.output name)) (afterQueries poll name 1 w)
      else
        .error (.serviceOperation name (some (failureDetail name (some reply))))
          (afterQueries poll name 1 w) := by
  obtain ⟨⟩ := w
  subst h
  rw [afterQueries_one, state]
  split_ifs with hcode
  · refine bind_of_ok (x := reply.output name) ?_
    change (if reply.code = 0 then _ else _ : Action World Text) _ = _
    rw [if_pos hcode]
    rfl
  · refine bind_of_error ?_
    change (if reply.code = 0 then _ else _ : Action World Text) _ = _
    rw [if_neg hcode]
    rfl

theorem state_cases (poll : Duration) (name wanted : Text) (w : World) :
    answerIn name wanted w.replies.head? = .failure ∧
      state name w =
        .error (.serviceOperation name (some (failureDetail name w.replies.head?)))
          (afterQueries poll name 1 w) ∨
    ∃ found, state name w = .ok found (afterQueries poll name 1 w) ∧
      answerIn name wanted w.replies.head? = if found = some wanted then .wanted else .other := by
  cases h : w.replies with
  | nil => exact .inl ⟨rfl, state_nil poll h⟩
  | cons reply rest =>
    rw [state_cons poll h, List.head?_cons, answerIn]
    by_cases hcode : reply.code = 0
    · exact .inr ⟨_, if_pos hcode, if_neg (by simpa using hcode)⟩
    · exact .inl ⟨if_pos hcode, if_neg hcode⟩

theorem pause_afterQueries (poll : Duration) (name : Text) (w : World) :
    pause poll (afterQueries poll name 1 w) = .ok () (afterRound poll name w) := by
  rw [afterQueries_one]
  change EStateM.Result.ok _ _ = _
  simp [afterRound]

def Late (deadline : Option Rat) (clock : Rat) : Prop := ∃ d ∈ deadline, d ≤ clock

def conclude (name wanted : Text) (reply : Option Reply) (w : World) :
    EStateM.Result Fault World Unit :=
  match answerIn name wanted reply with
  | .wanted => .ok () w
  | .failure => .error (.serviceOperation name (some (failureDetail name reply))) w
  | .other => .error (timedOut name wanted) w

section

variable {reply : Option Reply} {w' : World}

theorem conclude_eq_ok :
    conclude name wanted reply w = .ok () w' ↔ answerIn name wanted reply = .wanted ∧ w = w' := by
  rw [conclude]
  cases answerIn name wanted reply <;> simp

theorem conclude_eq_failure :
    (∃ detail, conclude name wanted reply w = .error (.serviceOperation name detail) w') ↔
      answerIn name wanted reply = .failure ∧ w = w' := by
  rw [conclude]
  cases answerIn name wanted reply <;> simp [timedOut]

theorem conclude_eq_timedOut :
    conclude name wanted reply w = .error (timedOut name wanted) w' ↔
      answerIn name wanted reply = .other ∧ w = w' := by
  rw [conclude]
  cases answerIn name wanted reply <;> simp [timedOut]

theorem finalState_of_conclude {a : Action World Unit}
    (h : a w = conclude name wanted reply w') : finalState a w = w' := by
  rw [finalState, h, conclude]
  cases answerIn name wanted reply <;> rfl

end

/-- A wait ends with its first query, or goes on with the queries after the next pause. -/
theorem awaitState_succ (poll : Duration) (name wanted : Text) (deadline : Option Rat) (w : World)
    (queries : Nat) :
    ((answerIn name wanted w.replies.head? = .other → Late deadline w.clock) ∧
      awaitState poll name wanted deadline (queries + 1) w =
        conclude name wanted w.replies.head? (afterQueries poll name 1 w)) ∨
    answerIn name wanted w.replies.head? = .other ∧ ¬ Late deadline w.clock ∧
      awaitState poll name wanted deadline (queries + 1) w =
        awaitState poll name wanted deadline queries (afterRound poll name w) := by
  obtain ⟨hanswer, hstate⟩ | ⟨found, hstate, hanswer⟩ := state_cases poll name wanted w
  · rw [conclude, hanswer]
    exact .inl ⟨nofun, bind_of_error hstate⟩
  · rw [conclude, hanswer, awaitState, bind_of_ok hstate]
    by_cases hfound : found = some wanted
    · rw [if_pos hfound, if_pos hfound]
      exact .inl ⟨nofun, rfl⟩
    · have hclock : (afterQueries poll name 1 w).clock = w.clock := by rw [afterQueries_one]
      rw [if_neg hfound, if_neg hfound, get_bind, hclock]
      cases deadline with
      | none => exact .inr ⟨rfl, by simp [Late], bind_of_ok (pause_afterQueries poll name w)⟩
      | some d =>
        dsimp only
        by_cases hlate : d ≤ w.clock
        · rw [if_pos (by simpa using hlate)]
          exact .inl ⟨fun _ => ⟨d, rfl, hlate⟩, rfl⟩
        · rw [if_neg (by simpa using hlate)]
          exact .inr ⟨rfl, by simpa [Late] using hlate,
            bind_of_ok (pause_afterQueries poll name w)⟩

/-- A wait that begins in a world ends with query `n`, counted from zero: the queries before it have
been answered by other states, and in time. -/
structure EndsWith (poll : Duration) (name wanted : Text) (deadline : Option Rat) (w : World)
    (n : Nat) (r : EStateM.Result Fault World Unit) : Prop where
  before : ∀ j < n, answerAt name wanted w j = .other ∧
    ¬ Late deadline (w.clock + j * poll.seconds)
  late : answerAt name wanted w n = .other → Late deadline (w.clock + n * poll.seconds)
  result : r = conclude name wanted w.replies[n]? (afterQueries poll name (n + 1) w)

theorem EndsWith.of_afterRound {n : Nat} {r : EStateM.Result Fault World Unit}
    (h : EndsWith poll name wanted deadline (afterRound poll name w) n r)
    (hfirst : answerAt name wanted w 0 = .other) (hlate : ¬ Late deadline w.clock) :
    EndsWith poll name wanted deadline w (n + 1) r := by
  have hreply (j : Nat) : (afterRound poll name w).replies[j]? = w.replies[j + 1]? := by
    simp [afterRound]
  have hclock (j : Nat) : (afterRound poll name w).clock + j * poll.seconds =
      w.clock + (j + 1 : Nat) * poll.seconds := by
    rw [afterRound]
    push_cast
    ring
  obtain ⟨hbefore, hlast, hresult⟩ := h
  simp only [answerAt, hreply, hclock, afterQueries_afterRound] at hbefore hlast hresult
  refine ⟨fun j hj => ?_, hlast, hresult⟩
  cases j with
  | zero => exact ⟨hfirst, by simpa using hlate⟩
  | succ j => exact hbefore j (by omega)

/-- With a query for each reply, and one more, a wait comes to its end. -/
theorem exists_endsWith (queries : Nat) (hqueries : w.replies.length < queries) :
    ∃ n, EndsWith poll name wanted deadline w n
      (awaitState poll name wanted deadline queries w) := by
  induction queries generalizing w with
  | zero => omega
  | succ queries ih =>
    have hfirst := awaitState_succ poll name wanted deadline w queries
    rw [List.head?_eq_getElem?] at hfirst
    obtain ⟨hlate, hrun⟩ | ⟨hanswer, hlate, hrun⟩ := hfirst
    · exact ⟨0, nofun, by simpa [answerAt] using hlate, hrun⟩
    · have hlength : (afterRound poll name w).replies.length < queries := by
        cases hreplies : w.replies with
        | nil => simp [hreplies, answerIn] at hanswer
        | cons reply rest => simpa [afterRound, hreplies] using hqueries
      obtain ⟨n, hends⟩ := ih hlength
      rw [hrun]
      exact ⟨n + 1, hends.of_afterRound hanswer hlate⟩

theorem exists_endsWith_waitFor (poll : Duration) (name wanted : Text) (timeout : Option Rat)
    (w : World) :
    ∃ n, EndsWith poll name wanted (timeout.map (w.clock + ·)) w n
      (waitFor poll name wanted timeout w) := exists_endsWith _ (Nat.lt_succ_self _)

section

variable {answer : Nat → Answer} {n limit : Nat} (hn : n < limit)
  (hbefore : ∀ j < n, answer j = .other) (hlast : answer n = .other → limit = n + 1)

include hn hbefore hlast

/-- The first answer of two kinds is of one of them. -/
theorem exists_first_iff {a b : Answer} (ha : a ≠ .other) (hb : b ≠ .other)
    (hab : answer n = a ∨ answer n = b ∨ answer n = .other) :
    (∃ i < limit, answer i = a ∧ ∀ j < i, answer j ≠ b) ↔ answer n = a := by
  refine ⟨?_, fun h => ⟨n, hn, h, fun j hj => ?_⟩⟩
  · rintro ⟨i, hi, hanswer, hfirst⟩
    obtain hlt | rfl | hgt := Nat.lt_trichotomy i n
    · exact absurd (hanswer.symm.trans (hbefore i hlt)) ha
    · exact hanswer
    · obtain h | h | h := hab
      · exact h
      · exact absurd h (hfirst n hgt)
      · have := hlast h
        omega
  · rw [hbefore j hj]
    exact hb.symm

theorem forall_other_iff : (∀ i < limit, answer i = .other) ↔ answer n = .other := by
  refine ⟨fun h => h n hn, fun h i hi => ?_⟩
  have hlimit := hlast h
  obtain hlt | rfl : i < n ∨ i = n := by omega
  · exact hbefore i hlt
  · exact h

end

theorem late_iff (hpoll : 0 < poll.seconds) (clock timeout : Rat) (n : Nat) :
    Late (some (clock + timeout)) (clock + n * poll.seconds) ↔ ⌈timeout / poll.seconds⌉₊ ≤ n := by
  rw [Nat.ceil_le, div_le_iff₀ hpoll]
  simp [Late]

/-- A wait with a time limit is decided by a query within the limit. It is the last one when the
answer to it decides nothing. -/
theorem exists_decisive (hpoll : 0 < poll.seconds) (name wanted : Text) (timeout : Rat)
    (w : World) :
    ∃ n < queryLimit poll timeout, (∀ j < n, answerAt name wanted w j = .other) ∧
      (answerAt name wanted w n = .other → queryLimit poll timeout = n + 1) ∧
      waitFor poll name wanted (some timeout) w =
        conclude name wanted w.replies[n]? (afterQueries poll name (n + 1) w) := by
  obtain ⟨n, hbefore, hlate, hresult⟩ := exists_endsWith_waitFor poll name wanted (some timeout) w
  simp only [Option.map_some, late_iff hpoll] at hbefore hlate
  have hn : n < queryLimit poll timeout := by
    by_contra hn
    have hover : ⌈timeout / poll.seconds⌉₊ < n := by
      rw [queryLimit] at hn
      omega
    exact (hbefore _ hover).2 le_rfl
  refine ⟨n, hn, fun j hj => (hbefore j hj).1, fun hanswer => ?_, hresult⟩
  have hover := hlate hanswer
  rw [queryLimit] at hn ⊢
  omega

theorem serviceOperation_of_unlimited {e : Fault} {w' : World}
    (h : waitFor poll name wanted none w = .error e w') :
    ∃ detail, e = .serviceOperation name detail := by
  obtain ⟨n, -, hlate, hresult⟩ := exists_endsWith_waitFor poll name wanted none w
  rw [hresult, conclude] at h
  cases hanswer : answerIn name wanted w.replies[n]? with
  | wanted => simp [hanswer] at h
  | failure =>
    rw [hanswer] at h
    cases h
    exact ⟨_, rfl⟩
  | other => simpa [Late] using hlate hanswer

/-- A wait with a time limit takes a bounded number of queries. It ends well if and only if the
wanted state is among so many answers and no failure comes before it, and with the fault of the
controller if and only if a failure is among them and the wanted state does not come before it.
Otherwise it ends late, by an answer that was asked for when the time was over. Without a time limit
it never ends late. -/
theorem waitFor_bounded (hpoll : 0 < poll.seconds) (name wanted : Text) (w : World) :
    (∀ timeout : Rat,
      (∃ n ≤ queryLimit poll timeout,
        finalState (waitFor poll name wanted (some timeout)) w = afterQueries poll name n w) ∧
      ((∃ w', waitFor poll name wanted (some timeout) w = .ok () w') ↔
        ∃ i < queryLimit poll timeout, answerAt name wanted w i = .wanted ∧
          ∀ j < i, answerAt name wanted w j ≠ .failure) ∧
      ((∃ detail w', waitFor poll name wanted (some timeout) w =
          .error (.serviceOperation name detail) w') ↔
        ∃ i < queryLimit poll timeout, answerAt name wanted w i = .failure ∧
          ∀ j < i, answerAt name wanted w j ≠ .wanted) ∧
      ((∃ w', waitFor poll name wanted (some timeout) w = .error (timedOut name wanted) w') ↔
        ∀ i < queryLimit poll timeout, answerAt name wanted w i = .other) ∧
      ∀ w', waitFor poll name wanted (some timeout) w = .error (timedOut name wanted) w' →
        w' = afterQueries poll name (queryLimit poll timeout) w ∧ w.clock + timeout ≤ w'.clock) ∧
    ∀ e w', waitFor poll name wanted none w = .error e w' →
      ∃ detail, e = .serviceOperation name detail := by
  refine ⟨fun timeout => ?_, fun e w' => serviceOperation_of_unlimited⟩
  obtain ⟨n, hn, hother, hlast, hresult⟩ := exists_decisive hpoll name wanted timeout w
  have hcases : answerAt name wanted w n = .wanted ∨ answerAt name wanted w n = .failure ∨
      answerAt name wanted w n = .other := by
    cases answerAt name wanted w n <;> simp
  refine ⟨⟨n + 1, hn, finalState_of_conclude hresult⟩, ?_, ?_, ?_, fun w' hw' => ?_⟩
  · rw [exists_first_iff hn hother hlast (by decide) (by decide) hcases]
    simp [hresult, conclude_eq_ok, answerAt]
  · rw [exists_first_iff hn hother hlast (by decide) (by decide) (or_left_comm.mp hcases),
      exists_comm]
    simp [hresult, conclude_eq_failure, answerAt]
  · rw [forall_other_iff hn hother hlast]
    simp [hresult, conclude_eq_timedOut, answerAt]
  · obtain ⟨hanswer, rfl⟩ := conclude_eq_timedOut.mp (hresult.symm.trans hw')
    have hlimit : ⌈timeout / poll.seconds⌉₊ = n := Nat.succ_injective (hlast hanswer)
    have hover : timeout / poll.seconds ≤ n := hlimit ▸ Nat.le_ceil _
    rw [div_le_iff₀ hpoll] at hover
    exact ⟨by rw [hlast hanswer], by simpa [afterQueries] using hover⟩

def slow : World where
  replies := [.state "START_PENDING".toList, .state "START_PENDING".toList, .state running]

/-- The third query comes after half a second. It is made when that is the time to wait, and it is
one too many for half of that. -/
theorem waitFor_bounded_slow :
    0 < defaultPoll.seconds ∧
      (∃ w', waitFor defaultPoll "svc".toList running (some (1 / 2)) slow = .ok () w') ∧
      ∃ w', waitFor defaultPoll "svc".toList running (some (1 / 4)) slow =
        .error (timedOut "svc".toList running) w' := by
  have hseconds : defaultPoll.seconds = 1 / 4 := by decide +kernel
  have hpoll : 0 < defaultPoll.seconds := by
    rw [hseconds]
    norm_num
  obtain ⟨htimed, -⟩ := waitFor_bounded hpoll "svc".toList running slow
  have hlong : queryLimit defaultPoll (1 / 2) = 3 := by
    rw [queryLimit, hseconds]
    norm_num
  have hshort : queryLimit defaultPoll (1 / 4) = 2 := by
    rw [queryLimit, hseconds]
    norm_num
  refine ⟨hpoll, (htimed (1 / 2)).2.1.mpr ⟨2, by omega, by decide, by decide⟩,
    (htimed (1 / 4)).2.2.2.1.mpr ?_⟩
  rw [hshort]
  decide

end Rollout.Service
