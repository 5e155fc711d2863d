import TableDriven.Proofs.Parse.Recovers

/-! # What a parse reports

`reports` lists the repairs that a parse has reported, with the tokens in error.  Fetching tokens,
looking ahead and searching report nothing and touch nothing but the feed and the journal:
`Tells` says so of a parse and what it has become, together with what was reported on the way.
-/

namespace TableDriven

open TableDriven.Parser

/-- The repair that a notice reports, and the token in error. -/
def Parser.Notice.report? : Notice V ε → Option (Token V × Report)
  | .repaired token report => some (token, report)
  | _ => none

namespace Parse

variable {σ ρ φ V ε : Type} {parse middle next : Parse σ ρ φ V ε} {token : Token V}
  {told more : List (Token V × Report)} {fuel : Nat}

/-- The repairs that were reported, the first one first. -/
def reports (parse : Parse σ ρ φ V ε) : List (Token V × Report) :=
  parse.journal.toList.filterMap Notice.report?

/-- Nothing but the feed and the journal has changed, and these repairs were reported. -/
def Tells (parse : Parse σ ρ φ V ε) (told : List (Token V × Report))
    (next : Parse σ ρ φ V ε) : Prop :=
  ∃ feed journal, next = { parse with feed, journal } ∧ next.reports = parse.reports ++ told

theorem Tells.refl (parse : Parse σ ρ φ V ε) : parse.Tells [] parse :=
  ⟨parse.feed, parse.journal, rfl, by simp⟩

theorem Tells.trans (first : parse.Tells told middle) (second : middle.Tells more next) :
    parse.Tells (told ++ more) next := by
  obtain ⟨_, _, rfl, first⟩ := first
  obtain ⟨feed, journal, rfl, second⟩ := second
  refine ⟨feed, journal, rfl, ?_⟩
  rw [second, first, List.append_assoc]

theorem Tells.table_eq (tells : parse.Tells told next) : next.table = parse.table := by
  obtain ⟨_, _, rfl, -⟩ := tells
  rfl

theorem Tells.stack_eq (tells : parse.Tells told next) : next.stack = parse.stack := by
  obtain ⟨_, _, rfl, -⟩ := tells
  rfl

theorem Tells.states_eq (tells : parse.Tells told next) : next.states = parse.states := by
  rw [states, states, tells.stack_eq]

theorem Tells.bindings_eq (tells : parse.Tells told next) : next.bindings = parse.bindings := by
  obtain ⟨_, _, rfl, -⟩ := tells
  rfl

theorem Tells.reports_eq (tells : parse.Tells told next) : next.reports = parse.reports ++ told := by
  obtain ⟨_, _, -, reported⟩ := tells
  exact reported

theorem mem_journal_of_mem_reports {report : Report} (member : (token, report) ∈ parse.reports) :
    .repaired token report ∈ parse.journal := by
  obtain ⟨notice, written, same⟩ := List.mem_filterMap.mp member
  cases notice with
  | repaired =>
    cases same
    exact Array.mem_toList_iff.mp written
  | _ => cases same

theorem tells_note (parse : Parse σ ρ φ V ε) (notice : Parser.Notice V ε) :
    parse.Tells notice.report?.toList (parse.note notice) := by
  refine ⟨parse.feed, parse.journal.push notice, rfl, ?_⟩
  simp only [reports, note, Array.toList_push, List.filterMap_append]
  cases notice <;> rfl

theorem tells_withFeed (parse : Parse σ ρ φ V ε) (feed : Feed σ ρ V ε) :
    parse.Tells [] (parse.withFeed feed) := by
  refine ⟨_, _, rfl, ?_⟩
  simp [reports, withFeed, List.filterMap_map, Function.comp_def, Notice.report?]

theorem tells_pushBack (parse : Parse σ ρ φ V ε) (token : Token V) :
    parse.Tells [] (parse.pushBack token) :=
  ⟨_, parse.journal, rfl, (List.append_nil _).symm⟩

section
variable [TokenSource σ V ε] [Resolver ρ σ V ε]

theorem tells_nextToken {answer : Except StreamFault (Token V)}
    (taken : parse.nextToken fuel = .ok (answer, next)) : parse.Tells [] next := by
  obtain ⟨⟨told, feed⟩, -, taken⟩ := bind_eq_ok_iff.mp taken
  cases taken
  exact tells_withFeed parse feed

theorem tells_peek {answer : Except StreamFault (Token V)} {distance : Nat}
    (peeked : parse.peek fuel distance = .ok (answer, next)) : parse.Tells [] next := by
  obtain ⟨⟨told, feed⟩, -, peeked⟩ := bind_eq_ok_iff.mp peeked
  cases peeked
  exact tells_withFeed parse feed

theorem Recovers.tells {outcome : Except StreamFault Unit}
    (recovers : parse.Recovers told outcome next) : parse.Tells told next := by
  induction recovers with
  | done => exact .refl _
  | lost _ ih => exact (tells_note _ .lost).trans ih
  | found repair _ ih => exact (tells_note _ (.found repair)).trans ih
  | looked peeked _ ih => exact (tells_peek peeked).trans ih
  | took taken _ ih => exact (tells_nextToken taken).trans ih
  | putBack token _ ih => exact (tells_pushBack _ token).trans ih
  | reported peeked report _ ih =>
    exact (tells_peek peeked).trans ((tells_note _ (.repaired _ report)).trans ih)
  | unseen peeked => exact tells_peek peeked
  | untaken taken => exact tells_nextToken taken

end

end Parse

end TableDriven
