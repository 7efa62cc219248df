import EntityStore.Config.Configuration
import EntityStore.Store.Search

/-! # Opening and closing the store

A `Session` is an open store.  Opening starts with empty tables; closing and opening again keeps
them only when they are on a disk.  A remote database cannot be reached from here, and a local one
has to be in a directory that is there.

A `Service` is what a configuration is opened as: the session of its database, and the limits that
every search is held to. -/

namespace EntityStore.Store

open Config (Configuration DatabaseSettings)

structure Session where
  tables : Tables
  /-- The tables outlive the session. -/
  durable : Bool

/-- The directories that a database file can be in: the working directory, the root, and the one of
temporary files. -/
def isDirectory (path : List Char) : Bool :=
  path = [] || path = ['.'] || path = ['/'] || path = "/tmp".toList

/-- A database can be opened at a path: it is no directory, and is in one. -/
def isUsablePath (path : String) : Bool :=
  let cs := path.toList
  cs = [] || (isDirectory (DatabaseSettings.directory cs) && !isDirectory cs &&
    cs.getLast? ≠ some '/')

namespace Session

/-- A new and empty store. -/
def start (d : DatabaseSettings) (durable : Bool) : Except DatabaseError Session :=
  if d.isRemote then .error (.migration "the remote database cannot be reached")
  else if durable || isUsablePath d.path then .ok ⟨.empty, durable⟩
  else .error (.engine "unable to open database file")

/-- The store after it was closed and opened again. -/
def reopen (s : Session) : Session := if s.durable then s else { s with tables := .empty }

end Session

structure Service where
  session : Session
  limits : Query.Limits

namespace Service

/-- The service of a configuration. -/
def start (c : Configuration) (durable : Bool) : Except DatabaseError Service :=
  match Session.start c.database durable with
  | .error e => .error e
  | .ok session => .ok ⟨session, c.limits⟩

/-- The service once its tables are others. -/
def withTables (s : Service) (t : Tables) : Service := { s with session.tables := t }

/-- A search within the limits of the service. -/
def search [FloatReader] (s : Service) (tenant : String) (request : Query.Search) :
    Except StoreError EntityPage :=
  Store.search s.limits tenant request s.session.tables

end Service
end EntityStore.Store
