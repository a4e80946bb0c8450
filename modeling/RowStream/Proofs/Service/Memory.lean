import Mathlib.Data.List.Permutation
import RowStream.Proofs.Keyed
import RowStream.Service.Memory

/-!
# Runs of the service in memory

What happens to a service in memory, one thing after the other and in any order (`Event`): its clock moves,
failures are put in line, append calls are opened, and calls are made that it answers at once (`Call`).

All that such a call can come to is one of the `Outcome`s: the first failure in line hits it, or it is
answered from the streams. What a run keeps is proved from these. A failure waits exactly if more were put in
line than calls were hit since (`hits`), so which failure hits which call is a matter of counting. The number
of the last stream only rises, and its digits are the end of the name, so a name is given once, also in
different tables. As nothing else is put under its name, a stream stays as it was created, but for the time of
the last commit that listed it.

* `outcome`: what a call can come to.
* `run_failures`: the failures that are left after a run.
* `nodup_created`: the names of the streams that a run creates.
* `get?_run`: what becomes of a stream along a run.
* `consistent_registry`: what the calls of any run show.
-/

namespace RowStream.Service

/-- What a call is answered if it does not fail. -/
inductive Reply where
  | stream (s : WriteStream)
  | finalized (r : FinalizeResponse)
  | flushed (r : FlushResponse)
  | committed (r : CommitResponse)

/-- The name of the stream that has to be there for the call. -/
def Call.target? : Call → Option String
  | .get r => some r.name
  | .finalize r => some r.name
  | .create _ | .flush _ | .commit _ => none

/-- The stream with the time of a commit, if there was one. -/
def WriteStream.stamp (s : WriteStream) (t : Option Timestamp) : WriteStream :=
  { s with commitTime := t.or s.commitTime }

@[simp] theorem WriteStream.stamp_none (s : WriteStream) : s.stamp none = s := rfl

/-- The time of the later of two commits counts. -/
theorem WriteStream.stamp_stamp (s : WriteStream) (t t' : Option Timestamp) :
    (s.stamp t).stamp t' = s.stamp (t'.or t) := by
  simp only [stamp, Option.or_assoc]

namespace Memory

/-- What can happen to the service. -/
inductive Event where
  | tick (now : Timestamp)
  | failNext (e : CallError)
  | failNextAppend (e : CallError)
  | openAppend
  | call (k : Call)

/-- The answer to a call. -/
def reply (m : Memory) : Call → Except CallError Reply
  | .create r => (m.create r).1.map .stream
  | .get r => (m.get r).1.map .stream
  | .finalize r => (m.finalize r).1.map .finalized
  | .flush r => (m.flush r).1.map .flushed
  | .commit r => (m.commit r).1.map .committed

/-- The service after a call. -/
def call (m : Memory) : Call → Memory
  | .create r => (m.create r).2
  | .get r => (m.get r).2
  | .finalize r => (m.finalize r).2
  | .flush r => (m.flush r).2
  | .commit r => (m.commit r).2

/-- The service after an event. -/
def act (m : Memory) : Event → Memory
  | .tick now => { m with now := now }
  | .failNext e => m.failNext e
  | .failNextAppend e => m.failNextAppend e
  | .openAppend => m.openAppend.2
  | .call k => m.call k

/-- The service after a run. -/
def run (m : Memory) (es : List Event) : Memory := es.foldl act m

@[simp] theorem run_nil (m : Memory) : m.run [] = m := rfl

@[simp] theorem run_cons (m : Memory) (e : Event) (es : List Event) :
    m.run (e :: es) = (m.act e).run es := rfl

@[simp] theorem run_append (m : Memory) (as bs : List Event) :
    m.run (as ++ bs) = (m.run as).run bs := List.foldl_append

/-! ## What a run shows -/

/-- The calls of a run. -/
def made : List Event → List Call
  | [] => []
  | .call k :: es => k :: made es
  | _ :: es => made es

/-- The failures that a run put in line for the calls. -/
def injected : List Event → List CallError
  | [] => []
  | .failNext e :: es => e :: injected es
  | _ :: es => injected es

/-- How many calls of a run are hit by a failure, where `waiting` failures are there before. A call is hit if
a failure waits, and then one less does. -/
def hits (waiting : Nat) : List Event → Nat
  | [] => 0
  | .failNext _ :: es => hits (waiting + 1) es
  | .call _ :: es => (if waiting = 0 then 0 else 1) + hits (waiting - 1) es
  | _ :: es => hits waiting es

/-- The stream that an event creates. -/
def creates (m : Memory) : Event → Option WriteStream
  | .call (.create r) =>
    match m.reply (.create r) with
    | .ok (.stream s) => some s
    | _ => none
  | _ => none

/-- The streams that a run creates, in the order of the calls. -/
def created (m : Memory) : List Event → List WriteStream
  | [] => []
  | e :: es => (m.creates e).toList ++ (m.act e).created es

/-- The time with which an event commits a stream: a commit lists the name and succeeds. -/
def commits (m : Memory) (name : String) : Event → Option Timestamp
  | .call (.commit r) =>
    match m.reply (.commit r) with
    | .ok (.committed a) => if name ∈ r.streams then a.commitTime else none
    | _ => none
  | _ => none

/-- The time with which a run commits a stream last. -/
def committed (m : Memory) (name : String) : List Event → Option Timestamp
  | [] => none
  | e :: es => ((m.act e).committed name es).or (m.commits name e)

variable {m : Memory} {k : Call} {e : Event} {es : List Event} {name : String} {s : WriteStream}

/-! ## What a call comes to -/

/-- The stream that a request creates. -/
def newStream (m : Memory) (r : CreateRequest) : WriteStream :=
  { r.stream.getD {} with
    name := streamName r.parent (m.lastStream + 1)
    createTime := some m.now }

/-- All that a call can come to: its answer, and the service after it. -/
inductive Outcome (m : Memory) : Call → Except CallError Reply → Memory → Prop
  | struck {k : Call} {e : CallError} {rest : List CallError} (h : m.failures = e :: rest) :
      Outcome m k (.error e) { m with calls := m.calls ++ [k], failures := rest }
  | missing {k : Call} {name : String} (h : m.failures = []) (hk : k.target? = some name)
      (hs : Keyed.get? m.streams name = none) :
      Outcome m k (.error (notFound name)) { m with calls := m.calls ++ [k] }
  | created (h : m.failures = []) (r : CreateRequest) :
      Outcome m (.create r) (.ok (.stream (m.newStream r)))
        { m with
          calls := m.calls ++ [.create r]
          lastStream := m.lastStream + 1
          streams := Keyed.put (m.newStream r).name (m.newStream r) m.streams }
  | found {r : GetRequest} {s : WriteStream} (h : m.failures = [])
      (hs : Keyed.get? m.streams r.name = some s) :
      Outcome m (.get r) (.ok (.stream s)) { m with calls := m.calls ++ [.get r] }
  | finalized {r : FinalizeRequest} {s : WriteStream} (h : m.failures = [])
      (hs : Keyed.get? m.streams r.name = some s) :
      Outcome m (.finalize r) (.ok (.finalized { rowCount := 0 }))
        { m with calls := m.calls ++ [.finalize r] }
  | flushed (h : m.failures = []) (r : FlushRequest) :
      Outcome m (.flush r) (.ok (.flushed { offset := (r.offset.getD {}).value }))
        { m with calls := m.calls ++ [.flush r] }
  | committed (h : m.failures = []) (r : CommitRequest) :
      Outcome m (.commit r) (.ok (.committed { commitTime := some m.now }))
        { m with
          calls := m.calls ++ [.commit r]
          streams := m.streams.map fun e =>
            (e.1, e.2.stamp (if e.1 ∈ r.streams then some m.now else none)) }

theorem record_of_cons {α : Type} {e : CallError} {rest : List CallError} (h : m.failures = e :: rest)
    (k : Call) (answer : Memory → Except CallError α × Memory) :
    m.record k answer = (.error e, { m with calls := m.calls ++ [k], failures := rest }) := by
  simp only [record, h]

theorem record_of_nil {α : Type} (h : m.failures = []) (k : Call)
    (answer : Memory → Except CallError α × Memory) :
    m.record k answer = answer { m with calls := m.calls ++ [k] } := by
  simp only [record, h]

/-- **What a call can come to.** -/
theorem outcome (m : Memory) (k : Call) : Outcome m k (m.reply k) (m.call k) := by
  cases hf : m.failures with
  | cons e rest =>
    have hstruck : m.reply k = .error e ∧
        m.call k = { m with calls := m.calls ++ [k], failures := rest } := by
      cases k <;> simp [reply, call, create, get, finalize, flush, commit, record_of_cons hf, Except.map]
    rw [hstruck.1, hstruck.2]
    exact .struck hf
  | nil =>
    cases k with
    | create r =>
      simp only [reply, call, create, record_of_nil hf]
      exact .created hf r
    | get r =>
      simp only [reply, call, get, record_of_nil hf]
      cases hs : Keyed.get? m.streams r.name with
      | none => exact .missing hf rfl hs
      | some s => exact .found hf hs
    | finalize r =>
      simp only [reply, call, finalize, record_of_nil hf]
      cases hs : Keyed.get? m.streams r.name with
      | none => exact .missing hf rfl hs
      | some s => exact .finalized hf hs
    | flush r =>
      simp only [reply, call, flush, record_of_nil hf]
      exact .flushed hf r
    | commit r =>
      simp only [reply, call, commit, record_of_nil hf]
      have hstamped : (m.streams.map fun e => (e.1,
          if r.streams.contains e.1 then { e.2 with commitTime := some m.now } else e.2)) =
          m.streams.map fun e => (e.1, e.2.stamp (if e.1 ∈ r.streams then some m.now else none)) := by
        refine List.map_congr_left fun e _ => ?_
        by_cases hmem : e.1 ∈ r.streams <;> simp [hmem, WriteStream.stamp]
      rw [hstamped]
      exact .committed hf r

/-- Every call is recorded, and takes the first failure in line if there is one. -/
theorem call_calls (m : Memory) (k : Call) : (m.call k).calls = m.calls ++ [k] := by
  have o := m.outcome k
  generalize m.reply k = a, m.call k = m' at o
  cases o <;> rfl

theorem call_failures (m : Memory) (k : Call) : (m.call k).failures = m.failures.tail := by
  have o := m.outcome k
  generalize m.reply k = a, m.call k = m' at o
  cases o with
  | struck h => rw [h, List.tail_cons]
  | _ h => simp [h]

/-- A failure in line hits the call. -/
theorem reply_of_struck {rest : List CallError} {x : CallError} (h : m.failures = x :: rest) (k : Call) :
    m.reply k = .error x := by
  have o := m.outcome k
  generalize m.reply k = a, m.call k = m' at o ⊢
  cases o with
  | struck h' => rw [(List.cons.inj (h.symm.trans h')).1]
  | _ h' => exact absurd (h.symm.trans h') (by simp)

/-- A call that no failure hits is answered, unless it asks for a stream that is not there. -/
theorem reply_of_missing (h : m.failures = []) (hk : k.target? = some name)
    (hs : Keyed.get? m.streams name = none) : m.reply k = .error (notFound name) := by
  have o := m.outcome k
  generalize m.reply k = a, m.call k = m' at o ⊢
  cases o with
  | struck h' => exact absurd (h.symm.trans h') (by simp)
  | missing _ hk' => rw [Option.some.inj (hk.symm.trans hk')]
  | found _ hs' =>
    obtain rfl := Option.some.inj hk
    exact absurd (hs.symm.trans hs') (by simp)
  | finalized _ hs' =>
    obtain rfl := Option.some.inj hk
    exact absurd (hs.symm.trans hs') (by simp)
  | _ => exact nomatch hk

theorem exists_reply (h : m.failures = [])
    (hk : ∀ name, k.target? = some name → Keyed.get? m.streams name ≠ none) :
    ∃ a, m.reply k = .ok a := by
  have o := m.outcome k
  generalize m.reply k = a, m.call k = m' at o ⊢
  cases o with
  | struck h' => exact absurd (h.symm.trans h') (by simp)
  | missing _ hk' hs => exact absurd hs (hk _ hk')
  | _ => exact ⟨_, rfl⟩

/-- A call that fails leaves the streams and their numbers. -/
theorem call_of_error {x : CallError} (h : m.reply k = .error x) :
    (m.call k).streams = m.streams ∧ (m.call k).lastStream = m.lastStream := by
  have o := m.outcome k
  rw [h] at o
  generalize m.call k = m' at o ⊢
  cases o <;> exact ⟨rfl, rfl⟩

/-- What a successful call gives is the stream that is there. -/
theorem get?_of_reply {r : GetRequest} (h : m.reply (.get r) = .ok (.stream s)) :
    Keyed.get? m.streams r.name = some s := by
  have o := m.outcome (.get r)
  rw [h] at o
  generalize m.call (.get r) = m' at o
  cases o with
  | found _ hs => exact hs

/-! ## Names -/

/-- A name tells its number. -/
theorem streamName_inj {parent parent' : String} {n n' : Nat}
    (h : streamName parent n = streamName parent' n') : n = n' := by
  -- the digits of the number are what stands after the last character that is no digit
  have hlast (parent : String) (n : Nat) :
      (streamName parent n).toList.reverse.takeWhile Char.isDigit = (Nat.toDigits 10 n).reverse := by
    have hname : (streamName parent n).toList =
        parent.toList ++ "/streams".toList ++ '/' :: Nat.toDigits 10 n := by
      simp [streamName, toString, Nat.repr]
    have hdigits : ∀ c ∈ (Nat.toDigits 10 n).reverse, c.isDigit = true := fun c hc =>
      Nat.isDigit_of_mem_toDigits (by decide) (by decide) (List.mem_reverse.mp hc)
    rw [hname, List.reverse_append, List.reverse_cons, List.append_assoc,
      List.takeWhile_append_of_pos hdigits, List.singleton_append,
      List.takeWhile_cons_of_neg (by decide), List.append_nil]
  have hdigits : (Nat.toDigits 10 n).reverse = (Nat.toDigits 10 n').reverse := by
    rw [← hlast parent n, h, hlast parent' n']
  calc n = Nat.ofDigitChars 10 (Nat.toDigits 10 n) 0 := Nat.ofDigitChars_ten_toDigits.symm
    _ = Nat.ofDigitChars 10 (Nat.toDigits 10 n') 0 := by rw [List.reverse_inj.mp hdigits]
    _ = n' := Nat.ofDigitChars_ten_toDigits

/-- An event that creates a stream puts it under its name, which has the next number. -/
theorem act_of_creates (h : m.creates e = some s) : (m.act e).lastStream = m.lastStream + 1 ∧
    (∃ parent, s.name = streamName parent (m.lastStream + 1)) ∧
    (m.act e).streams = Keyed.put s.name s m.streams ∧
    ∃ r, e = .call (.create r) ∧ m.reply (.create r) = .ok (.stream s) := by
  obtain ⟨r, rfl⟩ : ∃ r, e = .call (.create r) := by
    unfold creates at h
    split at h
    · exact ⟨_, rfl⟩
    · exact nomatch h
  have o := m.outcome (.create r)
  simp only [creates] at h
  simp only [act]
  generalize ha : m.reply (.create r) = a, m.call (.create r) = m' at o h ⊢
  cases o with
  | created =>
    obtain rfl := Option.some.inj h
    exact ⟨rfl, ⟨r.parent, rfl⟩, rfl, r, rfl, ha⟩
  | _ => exact nomatch h

/-- Every other event leaves the streams, but for the time of a commit. -/
theorem act_of_not_creates (h : m.creates e = none) : (m.act e).lastStream = m.lastStream ∧
    ∀ name, Keyed.get? (m.act e).streams name =
      (Keyed.get? m.streams name).map (·.stamp (m.commits name e)) := by
  have hsame {m' : Memory} (hl : m'.lastStream = m.lastStream) (hs : m'.streams = m.streams)
      (hc : ∀ name, m.commits name e = none) : m'.lastStream = m.lastStream ∧
        ∀ name, Keyed.get? m'.streams name =
          (Keyed.get? m.streams name).map (·.stamp (m.commits name e)) :=
    ⟨hl, fun name => by simp [hs, hc]⟩
  cases e with
  | tick now => exact hsame rfl rfl fun _ => rfl
  | failNext x => exact hsame rfl rfl fun _ => rfl
  | failNextAppend x => exact hsame rfl rfl fun _ => rfl
  | openAppend =>
    simp only [act, openAppend]
    split <;> exact hsame rfl rfl fun _ => rfl
  | call k =>
    have o := m.outcome k
    simp only [act]
    cases k with
    | create r =>
      simp only [creates] at h
      generalize m.reply (.create r) = a, m.call (.create r) = m' at o h ⊢
      cases o with
      | struck => exact hsame rfl rfl fun _ => rfl
      | missing _ hk => exact nomatch hk
      | created => exact nomatch h
    | commit r =>
      simp only [commits] at hsame ⊢
      generalize m.reply (.commit r) = a, m.call (.commit r) = m' at o hsame ⊢
      cases o with
      | struck => exact hsame rfl rfl fun _ => rfl
      | missing _ hk => exact nomatch hk
      | committed =>
        exact ⟨rfl, fun name => Keyed.get?_map
          (fun key s => s.stamp (if key ∈ r.streams then some m.now else none)) m.streams name⟩
    | _ =>
      generalize m.reply _ = a, m.call _ = m' at o ⊢
      cases o <;> exact hsame rfl rfl fun _ => rfl

/-! ## Runs -/

/-- **The calls of a run are listed, each once and in order.** -/
theorem run_calls (m : Memory) (es : List Event) : (m.run es).calls = m.calls ++ made es := by
  induction es generalizing m with
  | nil => exact (List.append_nil _).symm
  | cons e es ih =>
    rw [run_cons, ih]
    cases e with
    | call k => rw [act, call_calls, made, List.append_assoc, List.singleton_append]
    | openAppend =>
      simp only [act, openAppend, made]
      split <;> rfl
    | _ => rfl

/-- **Of the failures that were put in line those are left that hit no call.** -/
theorem run_failures (m : Memory) (es : List Event) : (m.run es).failures =
    (m.failures ++ injected es).drop (hits m.failures.length es) := by
  induction es generalizing m with
  | nil => exact (List.append_nil _).symm
  | cons e es ih =>
    rw [run_cons, ih]
    cases e with
    | failNext x => simp [act, failNext, injected, hits]
    | call k =>
      have hinjected : injected (.call k :: es) = injected es := rfl
      rw [act, call_failures, hinjected, hits]
      cases m.failures with
      | nil => simp
      | cons x rest => simp [Nat.add_comm 1]
    | openAppend =>
      simp only [act, openAppend, injected, hits]
      split <;> rfl
    | _ => rfl

/-- The name has a number that was given. -/
def Given (m : Memory) (name : String) : Prop :=
  ∃ parent n, name = streamName parent n ∧ n ≤ m.lastStream

theorem lastStream_le (m : Memory) (e : Event) : m.lastStream ≤ (m.act e).lastStream := by
  cases h : m.creates e with
  | some s =>
    rw [(act_of_creates h).1]
    exact Nat.le_succ _
  | none => exact (act_of_not_creates h).1.ge

theorem Given.act (h : Given m name) (e : Event) : Given (m.act e) name := by
  obtain ⟨parent, n, hname, hle⟩ := h
  exact ⟨parent, n, hname, hle.trans (m.lastStream_le e)⟩

/-- A name that was given is not given again. -/
theorem Given.ne_of_creates (h : Given m name) (hc : m.creates e = some s) : s.name ≠ name := by
  obtain ⟨parent, n, rfl, hle⟩ := h
  obtain ⟨-, ⟨parent', hname⟩, -⟩ := act_of_creates hc
  intro heq
  have hnumber := streamName_inj (hname.symm.trans heq)
  omega

/-- The streams of a run have numbers that were not given before. -/
theorem mem_created (h : s ∈ m.created es) : ∃ parent n, s.name = streamName parent n ∧
    m.lastStream < n := by
  induction es generalizing m with
  | nil => exact absurd h List.not_mem_nil
  | cons e es ih =>
    rcases List.mem_append.mp h with h | h
    · obtain ⟨-, ⟨parent, hname⟩, -⟩ := act_of_creates (Option.mem_toList.mp h)
      exact ⟨parent, _, hname, Nat.lt_succ_self _⟩
    · obtain ⟨parent, n, hname, hlt⟩ := ih h
      exact ⟨parent, n, hname, (m.lastStream_le e).trans_lt hlt⟩

/-- **No name is given twice in a run.** -/
theorem nodup_created (m : Memory) (es : List Event) : ((m.created es).map (·.name)).Nodup := by
  induction es generalizing m with
  | nil => exact List.nodup_nil
  | cons e es ih =>
    rw [created]
    cases hc : m.creates e with
    | none => exact ih (m.act e)
    | some s =>
      obtain ⟨hlast, ⟨parent, hname⟩, -⟩ := act_of_creates hc
      refine List.nodup_cons.mpr ⟨fun hmem => ?_, ih (m.act e)⟩
      obtain ⟨s', hs', heq⟩ := List.mem_map.mp hmem
      have hgiven : Given (m.act e) s.name := ⟨parent, _, hname, hlast.ge⟩
      obtain ⟨parent', n, hname', hlt⟩ := mem_created hs'
      have hnumber := streamName_inj (hname'.symm.trans (heq.trans hname))
      omega

/-- **A stream that is there stays as it is, but for the time of the last commit.** -/
theorem get?_run (h : Keyed.get? m.streams name = some s) (hg : Given m name) (es : List Event) :
    Keyed.get? (m.run es).streams name = some (s.stamp (m.committed name es)) := by
  induction es generalizing m s with
  | nil => exact h
  | cons e es ih =>
    have hstep : Keyed.get? (m.act e).streams name = some (s.stamp (m.commits name e)) := by
      cases hc : m.creates e with
      | none => rw [(act_of_not_creates hc).2, h, Option.map_some]
      | some s' =>
        obtain ⟨-, -, hput, r, rfl, -⟩ := act_of_creates hc
        rw [hput, Keyed.get?_put, if_neg (Ne.symm (hg.ne_of_creates hc)), h]
        rfl
    rw [run_cons, ih hstep (hg.act e), WriteStream.stamp_stamp]
    rfl

/-- **The streams that are there in the end** were there before, or the run created them. -/
theorem get?_run_ne_none (m : Memory) (es : List Event) (name : String) :
    Keyed.get? (m.run es).streams name ≠ none ↔
      Keyed.get? m.streams name ≠ none ∨ name ∈ (m.created es).map (·.name) := by
  induction es generalizing m with
  | nil => simp [created]
  | cons e es ih =>
    rw [run_cons, ih, created, List.map_append, List.mem_append, ← or_assoc]
    refine or_congr_left ?_
    cases hc : m.creates e with
    | none => simp [(act_of_not_creates hc).2]
    | some s =>
      rw [(act_of_creates hc).2.2.1, Keyed.get?_put]
      by_cases hname : name = s.name <;> simp [hname]

/-- A stream that a run created came from one of its calls. -/
theorem exists_create (h : s ∈ m.created es) : ∃ as r bs, es = as ++ .call (.create r) :: bs ∧
    (m.run as).reply (.create r) = .ok (.stream s) := by
  induction es generalizing m with
  | nil => exact absurd h List.not_mem_nil
  | cons e es ih =>
    rcases List.mem_append.mp h with h | h
    · obtain ⟨-, -, -, r, rfl, hr⟩ := act_of_creates (Option.mem_toList.mp h)
      exact ⟨[], r, es, rfl, hr⟩
    · obtain ⟨as, r, bs, rfl, hr⟩ := ih h
      exact ⟨e :: as, r, bs, rfl, hr⟩

/-- **A stream that a run created is there in the end.** -/
theorem get?_of_create {as bs : List Event} {q : CreateRequest}
    (hq : (m.run as).reply (.create q) = .ok (.stream s)) :
    Keyed.get? (m.run (as ++ .call (.create q) :: bs)).streams s.name =
      some (s.stamp (((m.run as).call (.create q)).committed s.name bs)) := by
  have hc : (m.run as).creates (.call (.create q)) = some s := by rw [creates, hq]
  obtain ⟨hlast, ⟨parent, hname⟩, hput, -⟩ := act_of_creates hc
  rw [run_append, run_cons]
  refine get?_run ?_ ⟨parent, _, hname, hlast.ge⟩ bs
  rw [hput, Keyed.get?_put, if_pos rfl]

/-- The failure that hits the next call of a run of a new service. -/
theorem failures_head? (now : Timestamp) (es : List Event) :
    (run { now := now } es).failures.head? = (injected es)[hits 0 es]? := by
  rw [run_failures, List.head?_drop, List.length_nil, List.nil_append]

/-- **The service is a consistent registry of streams.** After every run of a new one

* the calls of the run are listed, each once and in order, also those that failed;
* if `n` calls were hit by failures so far and more were put in line, the next call fails with the one after
  the first `n` of them; if not, it is answered, unless it asks for a stream that no call created: that is
  not found;
* a call that fails leaves the streams and the number of the last one;
* no two streams were created with the same name, also for different tables;
* a stream that is looked up is the one that was answered when it was created, with the time of the last
  successful commit since then that listed its name, if there was one. -/
theorem consistent_registry (now : Timestamp) (es : List Event) :
    let start : Memory := { now := now }
    let m := start.run es
    let names := (start.created es).map (·.name)
    m.calls = made es ∧
    (∀ k e, (injected es)[hits 0 es]? = some e → m.reply k = .error e) ∧
    (∀ k, (injected es)[hits 0 es]? = none →
      ((∀ name, k.target? = some name → name ∈ names) → ∃ a, m.reply k = .ok a) ∧
      ∀ name, k.target? = some name → name ∉ names → m.reply k = .error (notFound name)) ∧
    (∀ k e, m.reply k = .error e →
      (m.call k).streams = m.streams ∧ (m.call k).lastStream = m.lastStream) ∧
    names.Nodup ∧
    ∀ r s, m.reply (.get r) = .ok (.stream s) → ∃ as q bs t, es = as ++ .call (.create q) :: bs ∧
      (start.run as).reply (.create q) = .ok (.stream t) ∧ t.name = r.name ∧
      s = t.stamp (((start.run as).call (.create q)).committed r.name bs) := by
  intro start m names
  have hhead : m.failures.head? = (injected es)[hits 0 es]? := failures_head? now es
  have hthere (name : String) : Keyed.get? m.streams name ≠ none ↔ name ∈ names := by
    rw [get?_run_ne_none]
    simp [start, Keyed.get?, names]
  refine ⟨run_calls start es, fun k e he => ?_, fun k hnone => ⟨fun hk => ?_, fun name hk hn => ?_⟩,
    fun k e he => call_of_error he, nodup_created start es, fun r s hs => ?_⟩
  · obtain ⟨rest, hrest⟩ := List.head?_eq_some_iff.mp (hhead.trans he)
    exact reply_of_struck hrest k
  · have hfree : m.failures = [] := List.head?_eq_none_iff.mp (hhead.trans hnone)
    exact exists_reply hfree fun name htarget => (hthere name).mpr (hk name htarget)
  · have hfree : m.failures = [] := List.head?_eq_none_iff.mp (hhead.trans hnone)
    exact reply_of_missing hfree hk (not_not.mp ((hthere name).not.mpr hn))
  · have hget := get?_of_reply hs
    obtain ⟨t, ht, hname⟩ := List.mem_map.mp ((hthere r.name).mp (by simp [hget]))
    obtain ⟨as, q, bs, hes, hq⟩ := exists_create ht
    have hend : Keyed.get? m.streams t.name =
        some (t.stamp (((start.run as).call (.create q)).committed t.name bs)) := by
      rw [← get?_of_create hq, ← hes]
    rw [hname, hget] at hend
    exact ⟨as, q, bs, t, hes, hq, hname, Option.some.inj hend⟩

/-- The second of three creations is hit by a failure. The stream of the third was committed with the time of
the clock then. -/
theorem registry_after_commit :
    let start : Memory := { now := {} }
    let boom : CallError := { code := .internal, message := "boom" }
    let before : List Event := [.call (.create { parent := "t" }), .failNext boom]
    let after : List Event := [.call (.create { parent := "u" }), .call (.create { parent := "u" }),
      .tick { seconds := 5 }, .call (.commit { streams := ["u/streams/2"] }), .tick { seconds := 9 }]
    let stored : WriteStream :=
      { name := "u/streams/2", createTime := some {}, commitTime := some { seconds := 5 } }
    (start.run before).reply (.create { parent := "u" }) = .error boom ∧
      (start.created (before ++ after)).map (·.name) = ["t/streams/1", "u/streams/2"] ∧
      (start.run (before ++ after)).reply (.get { name := "u/streams/2" }) = .ok (.stream stored) ∧
      ∃ as q bs t, before ++ after = as ++ .call (.create q) :: bs ∧
        (start.run as).reply (.create q) = .ok (.stream t) ∧ t.name = "u/streams/2" ∧
        stored = t.stamp (((start.run as).call (.create q)).committed "u/streams/2" bs) := by
  intro start boom before after stored
  obtain ⟨-, hstruck, -⟩ := consistent_registry {} before
  obtain ⟨-, -, -, -, -, hfound⟩ := consistent_registry {} (before ++ after)
  have hget : (start.run (before ++ after)).reply (.get { name := "u/streams/2" }) =
      .ok (.stream stored) := by cbv
  exact ⟨hstruck _ _ (by decide), by cbv, hget, hfound _ _ hget⟩

end Memory

end RowStream.Service
