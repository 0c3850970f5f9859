import LogQuery.Scope
import LogQuery.Token.Split

/-!
# Readers over tokens

A reader takes tokens from the front of a list and gives a result. Its type carries the
one fact that every use of a reader rests on: what it leaves is a suffix of what it was
given, so it neither invents nor reorders tokens. Readers do not fail; one that finds
nothing says so in its result and takes nothing.
-/

namespace LogQuery

structure Reader (α : Type) where
  run : List Token → α × List Token
  suffix : ∀ ts, (run ts).2 <:+ ts

namespace Reader

instance : Monad Reader where
  pure a := ⟨fun ts => (a, ts), fun _ => List.suffix_rfl⟩
  bind r f :=
    ⟨fun ts => let taken := r.run ts; (f taken.1).run taken.2,
      fun ts => ((f _).suffix _).trans (r.suffix ts)⟩

@[simp] theorem run_pure {α : Type} (a : α) (ts : List Token) :
    (pure a : Reader α).run ts = (a, ts) := rfl

@[simp] theorem run_bind {α β : Type} (r : Reader α) (f : α → Reader β) (ts : List Token) :
    (r >>= f).run ts = (f (r.run ts).1).run (r.run ts).2 := rfl

@[simp] theorem run_map {α β : Type} (r : Reader α) (f : α → β) (ts : List Token) :
    (f <$> r).run ts = (f (r.run ts).1, (r.run ts).2) := rfl

/-- The number of tokens that a reader takes. -/
def used {α : Type} (r : Reader α) (ts : List Token) : Nat := ts.length - (r.run ts).2.length

/-- Looks at all tokens and takes none. -/
def look : Reader (List Token) := ⟨fun ts => (ts, ts), fun _ => List.suffix_rfl⟩

/-- Looks at the next token. -/
def peek : Reader (Option Token) := ⟨fun ts => (ts.head?, ts), fun _ => List.suffix_rfl⟩

/-- Takes the next token. -/
def next : Reader (Option Token) :=
  ⟨fun ts => (ts.head?, ts.tail), List.tail_suffix⟩

/-- Takes so many tokens, or all if there are fewer. -/
def skip (n : Nat) : Reader Unit := ⟨fun ts => ((), ts.drop n), fun ts => List.drop_suffix n ts⟩

/-- Takes all tokens. -/
def all : Reader (List Token) := ⟨fun ts => (ts, []), fun _ => List.nil_suffix⟩

/-- Takes the next token if it satisfies `p`. -/
def eat (p : Token → Bool) : Reader Bool where
  run
    | [] => (false, [])
    | t :: ts => if p t then (true, ts) else (false, t :: ts)
  suffix ts := by
    cases ts with
    | nil => exact List.suffix_rfl
    | cons t ts =>
      dsimp only
      split
      · exact List.suffix_cons t ts
      · exact List.suffix_rfl

/-- Takes a word, in any case of its ASCII letters. -/
def eatWord (w : Text) : Reader Bool := eat fun t => t.isKeyword w

/-- Takes a token, not a bracket, with exactly this text. -/
def eatText (s : Text) : Reader Bool := eat fun t => t.hasText s

/-- The next token is this word, in any case of its ASCII letters. -/
def atWord (w : Text) : Reader Bool := do
  return (← peek).any fun t => t.isKeyword w

/-- Takes the longest run of tokens at the front that `f` accepts. -/
def takeRun {α : Type} (f : Token → Option α) : Reader (List α) where
  run ts := (ts.map f |>.takeWhile Option.isSome |>.filterMap id,
    ts.dropWhile fun t => (f t).isSome)
  suffix _ := List.dropWhile_suffix _

/-- What one round of a loop makes of the state: go on with it or stop at it. -/
inductive Round (σ : Type)
  | more (s : σ)
  | done (s : σ)

/-- At most `n` rounds of `step`. -/
def rounds {σ : Type} (step : σ → Reader (Round σ)) : Nat → σ → Reader σ
  | 0, s => pure s
  | n + 1, s => do
    match ← step s with
    | .more s' => rounds step n s'
    | .done s' => return s'

/-- Rounds of `step` until it stops. A round that goes on is to take a token, so that one
round more than there are tokens is enough. -/
def loop {σ : Type} (step : σ → Reader (Round σ)) (s : σ) : Reader σ := do
  rounds step ((← look).length + 1) s

/-! ### Values and numbers -/

/-- Takes a quote or a word other than a comma, as the value it stands for. -/
def takeValue (s : Scope) : Reader (Option Text) := do
  match ← peek with
  | some t =>
    if t.isValue && !t.hasText "," then
      skip 1
      return some (s.value t)
    else return none
  | none => return none

/-- Takes a value if there is one. -/
def takeValueD (s : Scope) (default : Text) : Reader Text := do
  return (← takeValue s).getD default

/-- The number at the start of a value token. -/
def number? (s : Scope) (t : Token) : Option Decimal :=
  if t.isValue then Decimal.ofLeading? (s.value t) else none

/-- Takes a number if one comes next. -/
def takeNumber? (s : Scope) : Reader (Option Decimal) := do
  match (← peek).bind (number? s) with
  | some n =>
    skip 1
    return some n
  | none => return none

/-- Takes the next token as a number, `default` when it is none. -/
def takeNumber (s : Scope) (default : Int) : Reader Decimal := do
  return ((← next).bind (number? s)).getD (.ofInt default)

/-- Takes the next token as an integer, zero when it is none. A quote is none. -/
def takeInt : Reader Decimal := do
  return .ofInt ((((← next).bind Token.text?).bind Decimal.leadingInt?).getD 0)

/-! ### Brackets -/

/-- Takes a bracket without a callee. -/
def takeGroup : Reader (Option Bracket) := do
  match (← peek).bind Token.bracket? with
  | some b =>
    if b.isBare then
      skip 1
      return some b
    else return none
  | none => return none

/-- Takes `keyword(…)` or `keyword (…)`. -/
def takeKeywordGroup (keyword : Text) : Reader (Option Bracket) := do
  match ← look with
  | .bracket callee raw items :: _ =>
    if callee.sameFold keyword then
      skip 1
      return some ⟨callee, raw, items⟩
    else return none
  | t :: .bracket callee raw items :: _ =>
    if t.isKeyword keyword && callee.isEmpty then
      skip 2
      return some ⟨callee, raw, items⟩
    else return none
  | _ => return none

/-- Takes `name(…)`, `name (…)` or `(…)`. -/
def takeCall : Reader (Option Bracket) := do
  match ← look with
  | .bracket callee raw items :: _ =>
    skip 1
    return some ⟨callee, raw, items⟩
  | .word _ :: .bracket callee raw items :: _ =>
    skip 2
    return some ⟨callee, raw, items⟩
  | _ => return none

/-- Takes the condition of `if (…)`; without one the result is empty. -/
def takeCondition : Reader Text := do
  return ((← takeKeywordGroup "if").map Bracket.inner).getD []

/-- Takes `by (…)`, `by(…)` or `(…)`. -/
def takeByGroup : Reader (Option Bracket) := do
  match ← takeKeywordGroup "by" with
  | some b => return some b
  | none => takeGroup

/-- The values listed among tokens: quotes and words other than commas. -/
def listedValues (s : Scope) (ts : List Token) : List Text :=
  (ts.filter fun t => t.isValue && !t.isWord ",").map s.value

/-! ### Fields -/

/-- Takes fields between commas, as they are written. A comma at the end goes with them. -/
def takeFields : Reader (List Text) :=
  loop (fun fields => do
    match ← peek with
    | some t =>
      if t.isValue && !t.hasText "," then
        skip 1
        let fields := fields ++ [t.text?.getD []]
        return if ← eatText "," then .more fields else .done fields
      else return .done fields
    | none => return .done fields) []

/-- Takes the fields after `by`, bracketed or not. A bracket's text is kept as it is. -/
def takeBy : Reader Text := do
  match ← takeByGroup with
  | some b => return b.body
  | none =>
    let _ ← eatWord "by"
    return Text.join ", " (← takeFields)

/-- Takes the name of a field with its colon: `field:`, `field :` or `"field":`. -/
def takeFieldName (s : Scope) : Reader (Option Text) := do
  match ← look with
  | .field name :: _ =>
    skip 1
    return some name.trim
  | .word name :: .field [] :: _ =>
    skip 2
    return some name.trim
  | .quote name :: .field [] :: _ =>
    skip 2
    return some (s.unquote name).trim
  | _ => return none

/-- The word before the bracket when a call comes first, `name(…)` or `name (…)`. -/
def callName : List Token → Text
  | .bracket callee _ _ :: _ => callee
  | .word name :: .bracket [] _ _ :: _ => name
  | _ => []

end Reader

end LogQuery
