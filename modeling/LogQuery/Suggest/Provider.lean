import LogQuery.Error
import LogQuery.Suggest.Cache
import LogQuery.Suggest.Hits
import LogQuery.Suggest.Request

/-!
# Cached access to a store

A provider asks a store and keeps its sorted answers in a bounded cache. Failures are not
kept. It counts how often the store was asked.
-/

namespace LogQuery

/-- Answers requests, or says why not. -/
abbrev SuggestSource := SuggestRequest → Except Error (List Hit)

/-- What a provider remembers between requests. -/
structure Provider where
  cache : BoundedCache SuggestRequest (List Hit)
  /-- How often the store was asked. -/
  calls : Nat := 0

namespace Provider

def defaultCapacity : Nat := 100

/-- A provider that has not asked yet. -/
def start (capacity : Nat := defaultCapacity) : Provider := { cache := { capacity } }

def cachedSize (p : Provider) : Nat := p.cache.size

/-- Asks the store and keeps what it answers. -/
def ask (source : SuggestSource) (r : SuggestRequest) (p : Provider) :
    Except Error (List Hit) × Provider :=
  match source r with
  | .ok hits =>
    (.ok (Hit.sort hits),
      { cache := p.cache.insert r (Hit.sort hits), calls := p.calls + 1 })
  | .error e => (.error e, { p with calls := p.calls + 1 })

/-- The sorted hits of a request, from the cache if it has them. A value request without
a field has no hits, and the store is not asked. -/
def fetch (source : SuggestSource) (r : SuggestRequest) (p : Provider) :
    Except Error (List Hit) × Provider :=
  if r.isFieldless then (.ok [], p)
  else match p.cache.get r with
    | (some hits, cache) => (.ok hits, { p with cache })
    | (none, _) => p.ask source r

/-- The hits of a request. When it fails and its query is not empty, the request for the
whole store is tried once. -/
def fetchOrUnscoped (source : SuggestSource) (r : SuggestRequest) (p : Provider) :
    Except Error (List Hit) × Provider :=
  match p.fetch source r with
  | (.ok hits, next) => (.ok hits, next)
  | (.error e, next) => if r.query.isEmpty then (.error e, next) else next.fetch source r.unscoped

end Provider

end LogQuery
