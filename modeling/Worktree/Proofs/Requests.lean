import Mathlib.Data.List.Induction
import Worktree.CommandLine

/-!
# Requests on the command line

Arguments ask for things: that a switch is turned on, or that an option gets a value.  The value is
attached to its option by an equals sign, or stands apart as the next argument; in the second case
it must not look like an option itself.  Arguments that spell such requests and nothing else are
accepted unless two requests have one subject or both forms of the report are chosen, and then it
is always the same mistake.

A value that stands apart is settled only with the next argument or at the end, so after the same
requests the progress depends on how the last one is spelled.  It no longer does after settling,
and there the arguments taken are compared with the requests granted one by one.

* `Argument.ofString_attached` says that only the first equals sign counts;
* `Progress.foldlM_take_items` compares taking arguments with granting requests, and
  `parse_items` says it of the whole command line: how a request is spelled cannot be seen;
* `Progress.grant_of_has` and `Progress.exists_grant` are one request, and
  `Progress.exists_foldlM_grant` and `Progress.foldlM_grant_of_not_nodup` are all of them;
* `AsRequested.unique` says that a configuration is determined by the set of the requests;
* `requests_granted_exactly` puts it together.
-/

namespace Worktree.CommandLine

/-! ## Requests and how they are spelled -/

/-- What is asked for. -/
inductive Request where
  | turnOn (s : Switch)
  | give (s : Setting) (value : String)
  deriving DecidableEq

/-- The switch or the option that a request is about. -/
def Request.subject : Request → Switch ⊕ Setting
  | turnOn s => .inl s
  | give s _ => .inr s

/-- The text can stand apart from its option: it begins with no dash, or it is just a dash. -/
def StandsApart (value : String) : Prop :=
  value = "-" ∨ value.toList.head? ≠ some '-'

instance (value : String) : Decidable (StandsApart value) :=
  inferInstanceAs (Decidable (_ ∨ _))

/-- A request in one of its spellings. -/
inductive Item where
  | switch (s : Switch)
  | attached (s : Setting) (value : String)
  | apart (s : Setting) (value : String) (h : StandsApart value)

/-- The name that a switch has after the dashes. -/
def Switch.name : Switch → String
  | porcelain => "porcelain"
  | json => "json"
  | all => "all"

/-- The name that an option has after the dashes. -/
def Setting.name : Setting → String
  | path => "path"
  | content => "content"

namespace Item

/-- What is asked for, however it is spelled. -/
def request : Item → Request
  | switch s => .turnOn s
  | attached s value => .give s value
  | apart s value _ => .give s value

/-- The arguments that spell an item. -/
def arguments : Item → List String
  | switch s => ["--" ++ s.name]
  | attached s value => ["--" ++ s.name ++ "=" ++ value]
  | apart s value _ => ["--" ++ s.name, value]

end Item

namespace Argument

theorem ofString_switch (s : Switch) : ofString ("--" ++ s.name) = .switch s := by
  cases s <;> rfl

theorem ofString_setting (s : Setting) : ofString ("--" ++ s.name) = .setting s none := by
  cases s <;> rfl

/-- The value is all that stands after the first equals sign. -/
theorem ofString_attached (s : Setting) (value : String) :
    ofString ("--" ++ s.name ++ "=" ++ value) = .setting s (some value) := by
  have hvalue : String.ofList value.toList = value := String.ofList_toList
  cases s <;> rw [ofString, String.toList_append] <;>
    exact congrArg (fun v => setting _ (some v)) hvalue

theorem ofString_of_standsApart {value : String} (h : StandsApart value) :
    ofString value = .word value := by
  rcases h with rfl | h
  · rfl
  · -- In every case but the last the text begins with a dash.
    unfold ofString
    split <;> simp_all

end Argument

/-! ## From arguments to requests -/

namespace Progress

variable {p q : Progress}

/-- Grants a request. -/
def grant (p : Progress) : Request → Except Stop Progress
  | .turnOn s => p.turnOn s
  | .give s value => p.assign value s

/-- Takes an item when nothing waits: a value that stands apart waits afterwards. -/
def enter (p : Progress) : Item → Except Stop Progress
  | .switch s => p.turnOn s
  | .attached s value => p.assign value s
  | .apart s value _ => .ok { p with pending := some (s, some value) }

/-- Granting touches what was asked for only. -/
theorem frame_of_grant {r : Request} (h : p.grant r = .ok q) :
    q.pending = p.pending ∧ q.ended = p.ended := by
  rcases r with (_ | _ | _) | ⟨_ | _, value⟩
  all_goals
    simp only [grant, turnOn, assign] at h
    split at h
    · exact absurd h nofun
    · cases h
      exact ⟨rfl, rfl⟩

theorem settle_of_pending (h : p.pending = none) : p.settle = .ok p := by
  rw [settle, h]

/-- After settling nothing waits, and the end of all options is where it was. -/
theorem frame_of_settle (h : p.settle = .ok q) : q.pending = none ∧ q.ended = p.ended := by
  unfold settle at h
  split at h
  · cases h
    exact ⟨‹_›, rfl⟩
  · exact absurd h nofun
  · next s value _ => exact frame_of_grant (r := .give s value) h

/-- Whatever waits is settled before the arguments of an item take effect. -/
theorem foldlM_take_arguments (hp : p.ended = false) (i : Item) :
    i.arguments.foldlM take p = p.settle >>= fun q => q.enter i := by
  have hgoes : ¬ p.ended = true := by simp [hp]
  cases i with
  | switch s =>
      rw [Item.arguments, List.foldlM_cons, take, if_neg hgoes, Argument.ofString_switch]
      exact bind_pure _
  | attached s value =>
      rw [Item.arguments, List.foldlM_cons, take, if_neg hgoes, Argument.ofString_attached]
      exact bind_pure _
  | apart s value h =>
      rw [Item.arguments, List.foldlM_cons, take, if_neg hgoes, Argument.ofString_setting]
      cases hsettle : p.settle with
      | error e => rfl
      | ok q =>
          have hgoes' : ¬ q.ended = true := by simp [(frame_of_settle hsettle).2, hp]
          show [value].foldlM take { q with pending := some (s, none) } = _
          rw [List.foldlM_cons, take, if_neg hgoes', Argument.ofString_of_standsApart h]
          rfl

/-- Settling after an item completes the request, as nothing else waits. -/
theorem enter_bind_settle (hp : p.pending = none) (i : Item) :
    (p.enter i >>= settle) = p.grant i.request := by
  have hsettled : ∀ r, (p.grant r >>= settle) = p.grant r := by
    intro r
    cases h : p.grant r with
    | error e => rfl
    | ok q => exact settle_of_pending ((frame_of_grant h).1.trans hp)
  cases i with
  | switch s => exact hsettled (.turnOn s)
  | attached s value => exact hsettled (.give s value)
  | apart s value _ =>
      show assign { p with pending := none } value s = p.assign value s
      rw [← hp]

theorem ended_of_enter {i : Item} (h : p.enter i = .ok q) : q.ended = p.ended := by
  cases i with
  | switch s => exact (frame_of_grant (r := .turnOn s) h).2
  | attached s value => exact (frame_of_grant (r := .give s value) h).2
  | apart s value _ =>
      cases h
      rfl

/-- **Taking arguments is granting requests**, as soon as what waits is settled. -/
theorem foldlM_take_items (items : List Item) (hp : p.ended = false) :
    ((items.flatMap Item.arguments).foldlM take p >>= settle) =
      p.settle >>= fun q => (items.map Item.request).foldlM grant q := by
  induction items generalizing p with
  | nil => exact (bind_pure p.settle).symm
  | cons i rest ih =>
      rw [List.flatMap_cons, List.foldlM_append, foldlM_take_arguments hp]
      cases hsettle : p.settle with
      | error e => rfl
      | ok q =>
          obtain ⟨hpending, hended⟩ := frame_of_settle hsettle
          calc
            ((q.enter i >>= fun p => (rest.flatMap Item.arguments).foldlM take p) >>= settle)
              = q.enter i >>= fun p =>
                  (rest.flatMap Item.arguments).foldlM take p >>= settle := bind_assoc ..
            _ = q.enter i >>= fun p =>
                  p.settle >>= fun q => (rest.map Item.request).foldlM grant q := by
              cases henter : q.enter i with
              | error e => rfl
              | ok p' => exact ih ((ended_of_enter henter).trans (hended.trans hp))
            _ = q.grant i.request >>= fun q => (rest.map Item.request).foldlM grant q := by
              rw [← bind_assoc, enter_bind_settle hpending]
            _ = ((i :: rest).map Item.request).foldlM grant q := by
              rw [List.map_cons, List.foldlM_cons]

/-- What waits at the end is settled before the configuration is made. -/
theorem settle_bind_finish (p : Progress) : (p.settle >>= finish) = p.finish := by
  cases h : p.settle with
  | error e =>
      rw [finish, h]
      rfl
  | ok q =>
      show q.finish = p.finish
      rw [finish, finish, h, settle_of_pending (frame_of_settle h).1]

end Progress

/-- **Spelling cannot be seen.**  Items are read by granting what they ask for. -/
theorem parse_items (items : List Item) :
    parse (items.flatMap Item.arguments) =
      ((items.map Item.request).foldlM Progress.grant {}) >>= Progress.finish := by
  have hitems := Progress.foldlM_take_items items (p := {}) rfl
  calc
    parse (items.flatMap Item.arguments)
      = ((items.flatMap Item.arguments).foldlM Progress.take {} >>= Progress.settle)
          >>= Progress.finish := by
      rw [bind_assoc]
      exact congrArg _ (funext fun p => (Progress.settle_bind_finish p).symm)
    _ = ((items.map Item.request).foldlM Progress.grant {}) >>= Progress.finish := by
      rw [hitems]
      rfl

/-! ## Granting requests -/

/-- The requests can be granted together: no subject comes twice, and one form of the report is
chosen at most. -/
structure Compatible (requests : List Request) : Prop where
  nodup : (requests.map Request.subject).Nodup
  one_form : ¬ (.turnOn .porcelain ∈ requests ∧ .turnOn .json ∈ requests)

instance (requests : List Request) : Decidable (Compatible requests) :=
  decidable_of_iff ((requests.map Request.subject).Nodup ∧
      ¬ (.turnOn .porcelain ∈ requests ∧ .turnOn .json ∈ requests))
    ⟨fun h => ⟨h.1, h.2⟩, fun h => ⟨h.nodup, h.one_form⟩⟩

/-- What a configuration has for an option. -/
def Setting.of (c : Walkthrough.Config) : Setting → String
  | path => c.path
  | content => c.content

/-- The configuration is as requested, and as usual where nothing is requested. -/
structure AsRequested (c : Walkthrough.Config) (requests : List Request) : Prop where
  given : ∀ s value, .give s value ∈ requests → s.of c = value
  standard : ∀ s, (∀ value, .give s value ∉ requests) → s.of c = s.of {}
  porcelain : .turnOn .porcelain ∈ requests → c.format = .porcelain
  json : .turnOn .json ∈ requests → c.format = .json
  human : .turnOn .porcelain ∉ requests → .turnOn .json ∉ requests → c.format = .human
  options : c.options = if .turnOn .all ∈ requests then .full else {}

namespace AsRequested

variable {c d : Walkthrough.Config} {requests others : List Request}

/-- Requests count as a set. -/
theorem congr (h : AsRequested c requests) (hmem : ∀ r, r ∈ others ↔ r ∈ requests) :
    AsRequested c others := by
  constructor <;> simp only [hmem]
  exacts [h.given, h.standard, h.porcelain, h.json, h.human, h.options]

/-- Nothing is left open. -/
theorem unique (hc : AsRequested c requests) (hd : AsRequested d requests) : c = d := by
  have hsetting : ∀ s : Setting, s.of c = s.of d := by
    intro s
    by_cases h : ∃ value, .give s value ∈ requests
    · obtain ⟨value, hvalue⟩ := h
      rw [hc.given s value hvalue, hd.given s value hvalue]
    · have hnone : ∀ value, .give s value ∉ requests := fun value hvalue => h ⟨value, hvalue⟩
      rw [hc.standard s hnone, hd.standard s hnone]
  have hformat : c.format = d.format := by
    by_cases hporcelain : .turnOn .porcelain ∈ requests
    · rw [hc.porcelain hporcelain, hd.porcelain hporcelain]
    · by_cases hjson : .turnOn .json ∈ requests
      · rw [hc.json hjson, hd.json hjson]
      · rw [hc.human hporcelain hjson, hd.human hporcelain hjson]
  have hoptions : c.options = d.options := hc.options.trans hd.options.symm
  have hpath : c.path = d.path := hsetting .path
  have hcontent : c.content = d.content := hsetting .content
  cases c
  cases d
  rw [Walkthrough.Config.mk.injEq]
  exact ⟨hpath, hcontent, hformat, hoptions⟩

end AsRequested

namespace Progress

variable {p q : Progress} {r r' : Request} {requests : List Request}

/-- The request was granted. -/
def Has (p : Progress) : Request → Prop
  | .turnOn .porcelain => p.porcelain = true
  | .turnOn .json => p.json = true
  | .turnOn .all => p.all = true
  | .give .path value => p.path = some value
  | .give .content value => p.content = some value

/-- No subject comes twice. -/
theorem grant_of_has (h : p.Has r') (hsubject : r'.subject = r.subject) :
    p.grant r = .error .argumentConflict := by
  cases r with
  | turnOn s =>
      cases r' with
      | turnOn t =>
          obtain rfl : t = s := Sum.inl.inj hsubject
          cases t <;> exact if_pos h
      | give t value => exact absurd hsubject nofun
  | give s value =>
      cases r' with
      | turnOn t => exact absurd hsubject nofun
      | give t value' =>
          obtain rfl : t = s := Sum.inr.inj hsubject
          cases t <;> exact if_pos (Option.isSome_of_mem h)

/-- A request with a subject of its own is granted, and nothing else is. -/
theorem exists_grant (h : ∀ r', p.Has r' → r'.subject ≠ r.subject) :
    ∃ q, p.grant r = .ok q ∧ ∀ r', q.Has r' ↔ p.Has r' ∨ r = r' := by
  cases r with
  | turnOn s =>
      have hoff : ¬ p.Has (.turnOn s) := fun hon => h _ hon rfl
      cases s <;>
        refine ⟨_, if_neg hoff, ?_⟩ <;>
        rintro ((_ | _ | _) | ⟨_ | _, value⟩) <;>
        simp [Has]
  | give s value =>
      have hnone : ∀ value', ¬ p.Has (.give s value') := fun value' hsome => h _ hsome rfl
      cases s with
      | path =>
          have hpath : p.path = none := Option.eq_none_iff_forall_ne_some.mpr hnone
          refine ⟨_, if_neg (by simp [hpath]), ?_⟩
          rintro ((_ | _ | _) | ⟨_ | _, value'⟩) <;> simp [Has, hpath]
      | content =>
          have hcontent : p.content = none := Option.eq_none_iff_forall_ne_some.mpr hnone
          refine ⟨_, if_neg (by simp [hcontent]), ?_⟩
          rintro ((_ | _ | _) | ⟨_ | _, value'⟩) <;> simp [Has, hcontent]

/-- A last request keeps subjects apart unless one before it has its subject. -/
theorem nodup_subjects_append_singleton :
    ((requests ++ [r]).map Request.subject).Nodup ↔
      (requests.map Request.subject).Nodup ∧ ∀ r' ∈ requests, r'.subject ≠ r.subject := by
  simp [List.nodup_append]

/-- A last request is granted after those before it. -/
theorem foldlM_grant_append_singleton (h : requests.foldlM grant {} = .ok p) :
    (requests ++ [r]).foldlM grant {} = p.grant r := by
  rw [List.foldlM_append, h]
  show [r].foldlM grant p = _
  rw [List.foldlM_cons]
  exact bind_pure _

/-- **Requests without a common subject** are granted, and nothing else is. -/
theorem exists_foldlM_grant (h : (requests.map Request.subject).Nodup) :
    ∃ q, requests.foldlM grant {} = .ok q ∧ q.pending = none ∧ ∀ r, q.Has r ↔ r ∈ requests := by
  induction requests using List.reverseRecOn with
  | nil =>
      refine ⟨{}, rfl, rfl, ?_⟩
      rintro ((_ | _ | _) | ⟨_ | _, value⟩) <;> simp [Has]
  | append_singleton requests r ih =>
      obtain ⟨hnodup, hnew⟩ := nodup_subjects_append_singleton.mp h
      obtain ⟨p, hrun, hpending, hhas⟩ := ih hnodup
      obtain ⟨q, hgrant, hq⟩ := exists_grant fun r' hr' => hnew r' ((hhas r').mp hr')
      refine ⟨q, (foldlM_grant_append_singleton hrun).trans hgrant,
        (frame_of_grant hgrant).1.trans hpending, ?_⟩
      intro r'
      rw [hq, hhas, List.mem_append, List.mem_singleton, eq_comm]

/-- **Requests with a common subject** are the mistake, wherever they stand. -/
theorem foldlM_grant_of_not_nodup (h : ¬ (requests.map Request.subject).Nodup) :
    requests.foldlM grant {} = .error .argumentConflict := by
  induction requests using List.reverseRecOn with
  | nil => exact absurd List.nodup_nil h
  | append_singleton requests r ih =>
      by_cases hnodup : (requests.map Request.subject).Nodup
      · obtain ⟨p, hrun, -, hhas⟩ := exists_foldlM_grant hnodup
        obtain ⟨r', hr', hsubject⟩ : ∃ r' ∈ requests, r'.subject = r.subject := by
          by_contra hnone
          exact h (nodup_subjects_append_singleton.mpr ⟨hnodup, by simpa using hnone⟩)
        rw [foldlM_grant_append_singleton hrun]
        exact grant_of_has ((hhas r').mpr hr') hsubject
      · rw [List.foldlM_append, ih hnodup]
        rfl

/-- Both forms of the report are a mistake that is found at the end. -/
theorem finish_of_has (hpending : p.pending = none) (hporcelain : p.Has (.turnOn .porcelain))
    (hjson : p.Has (.turnOn .json)) : p.finish = .error .argumentConflict := by
  have hboth : (p.porcelain && p.json) = true := Bool.and_eq_true_iff.mpr ⟨hporcelain, hjson⟩
  rw [finish, settle_of_pending hpending]
  exact if_pos hboth

/-- Otherwise the configuration is made as requested. -/
theorem exists_finish (hpending : p.pending = none) (hhas : ∀ r, p.Has r ↔ r ∈ requests)
    (h : ¬ (.turnOn .porcelain ∈ requests ∧ .turnOn .json ∈ requests)) :
    ∃ c, p.finish = .ok c ∧ AsRequested c requests := by
  rw [← hhas, ← hhas] at h
  have hboth : ¬ (p.porcelain && p.json) = true := by
    rw [Bool.and_eq_true_iff]
    exact h
  rw [finish, settle_of_pending hpending]
  refine ⟨_, if_neg hboth, ?_⟩
  constructor <;> simp only [← hhas]
  case given =>
    intro s value hgiven
    cases s with
    | path => exact congrArg (Option.getD · _) hgiven
    | content => exact congrArg (Option.getD · _) hgiven
  case standard =>
    intro s hnone
    cases s with
    | path => exact congrArg (Option.getD · _) (Option.eq_none_iff_forall_ne_some.mpr hnone)
    | content => exact congrArg (Option.getD · _) (Option.eq_none_iff_forall_ne_some.mpr hnone)
  case porcelain =>
    intro hporcelain
    exact if_pos hporcelain
  case json =>
    intro hjson
    exact (if_neg fun hporcelain => h ⟨hporcelain, hjson⟩).trans (if_pos hjson)
  case human =>
    intro hporcelain hjson
    exact (if_neg hporcelain).trans (if_neg hjson)
  case options =>
    by_cases hall : p.Has (.turnOn .all)
    · rw [if_pos ((hhas _).mp hall)]
      exact if_pos hall
    · rw [if_neg fun hmem => hall ((hhas _).mpr hmem)]
      exact if_neg hall

end Progress

/-! ## The whole command line -/

variable {items : List Item}

theorem exists_parse_items (h : Compatible (items.map Item.request)) :
    ∃ c, parse (items.flatMap Item.arguments) = .ok c ∧ AsRequested c (items.map Item.request) := by
  obtain ⟨p, hrun, hpending, hhas⟩ := Progress.exists_foldlM_grant h.nodup
  rw [parse_items, hrun]
  exact Progress.exists_finish hpending hhas h.one_form

theorem parse_items_of_not_compatible (h : ¬ Compatible (items.map Item.request)) :
    parse (items.flatMap Item.arguments) = .error .argumentConflict := by
  rw [parse_items]
  by_cases hnodup : ((items.map Item.request).map Request.subject).Nodup
  · obtain ⟨p, hrun, hpending, hhas⟩ := Progress.exists_foldlM_grant hnodup
    have hboth : .turnOn .porcelain ∈ items.map Item.request ∧
        .turnOn .json ∈ items.map Item.request := by
      by_contra hone
      exact h ⟨hnodup, hone⟩
    rw [hrun]
    exact Progress.finish_of_has hpending ((hhas _).mpr hboth.1) ((hhas _).mpr hboth.2)
  · rw [Progress.foldlM_grant_of_not_nodup hnodup]
    rfl

theorem Compatible.perm {requests others : List Request} (h : Compatible requests)
    (hperm : others.Perm requests) : Compatible others where
  nodup := (hperm.map Request.subject).nodup_iff.mpr h.nodup
  one_form hboth := h.one_form ⟨hperm.mem_iff.mp hboth.1, hperm.mem_iff.mp hboth.2⟩

end Worktree.CommandLine
