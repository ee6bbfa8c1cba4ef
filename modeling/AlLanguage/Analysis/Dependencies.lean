import AlLanguage.Library.StableSort
import AlLanguage.Library.Worklist
import AlLanguage.Symbols.Versions
import Mathlib.Data.Finset.Sort
import Mathlib.Data.List.Lex
import Mathlib.Data.String.Basic

/-!
# The dependency graph of a project

Built from the manifest, its dependencies and the manifests of the loaded packages.
-/

namespace AlLanguage.Analysis

open Library AlLanguage.Runtime AlLanguage.Symbols

/-- The identity of the project. -/
structure AppManifest where
  id : String
  name : String
  publisher : String
  version : String

structure PackageEntry where
  appId : String
  name : String
  publisher : String
  version : String
  dependencies : List AppDependency
  sourcePath : String

structure DepNode where
  appId : String
  name : String
  publisher : String
  version : String
  packagePath : Option String
  deriving DecidableEq

structure DepEdge where
  fromAppId : String
  fromName : String
  fromPublisher : String
  toAppId : String
  toName : String
  toPublisher : String
  requiredVersion : String
  deriving DecidableEq

structure VersionConflict where
  appId : String
  name : String
  publisher : String
  loadedVersions : List String
  requiredVersions : List String
  requiredBy : List String
  reason : String
  deriving DecidableEq

structure DependencyGraph where
  rootApp : DepNode
  nodes : List DepNode
  edges : List DepEdge
  transitive : List DepNode
  conflicts : List VersionConflict
  missing : List String
  deriving DecidableEq

/-! ## Identities -/

def identityKey (appId name publisher : String) : String :=
  let appId := trim appId
  if appId ≠ "" then "id:" ++ Symbols.toAsciiLowercase appId
  else "name:" ++ Symbols.toAsciiLowercase (trim publisher) ++ "\x00" ++ Symbols.toAsciiLowercase (trim name)

def dependencyIdentity (dependency : AppDependency) : String :=
  identityKey dependency.id dependency.name dependency.publisher

namespace PackageEntry

def identity (package : PackageEntry) : String := identityKey package.appId package.name package.publisher

def node (package : PackageEntry) : DepNode where
  appId := package.appId
  name := package.name
  publisher := package.publisher
  version := package.version
  packagePath := some package.sourcePath

/-- What packages are sorted by. -/
def sortKey (package : PackageEntry) : List String :=
  [package.identity, Symbols.toAsciiLowercase package.version, Symbols.toAsciiLowercase package.sourcePath]

end PackageEntry

namespace DepNode

def identity (node : DepNode) : String := identityKey node.appId node.name node.publisher

def sortKey (node : DepNode) : List String := [node.identity, Symbols.toAsciiLowercase node.version]

end DepNode

namespace DepEdge

def sourceIdentity (edge : DepEdge) : String := identityKey edge.fromAppId edge.fromName edge.fromPublisher

def toIdentity (edge : DepEdge) : String := identityKey edge.toAppId edge.toName edge.toPublisher

def sortKey (edge : DepEdge) : List String :=
  [edge.sourceIdentity, edge.toIdentity, Symbols.toAsciiLowercase edge.requiredVersion]

def missingText (edge : DepEdge) : String :=
  edge.toPublisher ++ " / " ++ edge.toName ++ " (" ++ edge.toAppId ++ ", >= " ++ edge.requiredVersion ++
    ") required by " ++ edge.fromPublisher ++ " / " ++ edge.fromName

/-- A requirement on a version. -/
def versioned (edge : DepEdge) : Bool := edge.requiredVersion ≠ "" && edge.requiredVersion ≠ "*"

end DepEdge

def edge (source : String × String × String) (dependency : AppDependency) : DepEdge where
  fromAppId := source.1
  fromName := source.2.1
  fromPublisher := source.2.2
  toAppId := dependency.id
  toName := dependency.name
  toPublisher := dependency.publisher
  requiredVersion := dependency.version

def PackageEntry.edges (package : PackageEntry) : List DepEdge :=
  package.dependencies.map (edge (package.appId, package.name, package.publisher))

/-- `sort` and `dedup`. -/
def sortedTexts (texts : List String) : List String := texts.toFinset.sort (· ≤ ·)

/-! ## Conflicts -/

def VersionConflict.identity (conflict : VersionConflict) : String :=
  identityKey conflict.appId conflict.name conflict.publisher

/-- A requirement that no loaded package satisfies. -/
def unsatisfied (loaded : List PackageEntry) (required : List DepEdge) : Bool :=
  required.any fun edge =>
    edge.versioned && !loaded.any fun package => versionAtLeast package.version edge.requiredVersion

def inconsistentMetadata : List PackageEntry → Bool
  | [] => false
  | first :: rest =>
    rest.any fun package =>
      !eqIgnoreAsciiCase package.name first.name || !eqIgnoreAsciiCase package.publisher first.publisher

def conflictReasons (loaded : List PackageEntry) (required : List DepEdge) : List String :=
  (if 1 < (sortedTexts (loaded.map (·.version))).length then
    ["multiple package versions are loaded for one app identity"] else []) ++
  (if unsatisfied loaded required then
    ["no loaded package version satisfies every minimum-version requirement"] else []) ++
  (if inconsistentMetadata loaded then ["one app identity has inconsistent name or publisher metadata"] else [])

/-- The conflict of one identity, from its packages and the edges to it. -/
def versionConflict (loaded : List PackageEntry) (required : List DepEdge) : Option VersionConflict :=
  match loaded with
  | [] => none
  | first :: _ =>
    let reasons := conflictReasons loaded required
    if reasons.isEmpty then none
    else
      let identityEdge := required.head?
      some {
        appId := (identityEdge.map (·.toAppId)).getD first.appId
        name := (identityEdge.map (·.toName)).getD first.name
        publisher := (identityEdge.map (·.toPublisher)).getD first.publisher
        loadedVersions := sortedTexts (loaded.map (·.version))
        requiredVersions := sortedTexts ((required.filter (·.versioned)).map (·.requiredVersion))
        requiredBy := sortedTexts (required.map fun edge => edge.fromPublisher ++ " / " ++ edge.fromName)
        reason := "; ".intercalate reasons }

def findVersionConflicts (edges : List DepEdge) (packages : List PackageEntry) : List VersionConflict :=
  let identities := (packages.map (·.identity)).toFinset ∪ (edges.map (·.toIdentity)).toFinset
  let conflicts := (identities.sort (· ≤ ·)).filterMap fun identity =>
    versionConflict (packages.filter (·.identity = identity)) (edges.filter (·.toIdentity = identity))
  sortBy VersionConflict.identity conflicts

/-! ## The graph -/

/-- The identities that the packages of an identity depend on. -/
def dependencyTargets (packages : List PackageEntry) (identity : String) : List String :=
  (packages.filter (·.identity = identity)).flatMap fun package => package.dependencies.map dependencyIdentity

/-- The loop over the queue. It has turns for the direct dependencies and for the identities of loaded packages. -/
def transitiveWork (rootIdentity : String) (rootDependencies : List AppDependency) (packages : List PackageEntry) :
    Worklist.Work String :=
  let loaded := (packages.map (·.identity)).toFinset
  let direct := (rootDependencies.map dependencyIdentity).toFinset
  Worklist.close rootIdentity (· ∈ loaded) (dependencyTargets packages) (direct.card + loaded.card)
    { visited := direct, queue := direct.sort (· ≤ ·), reached := ∅ }

def buildDependencyGraph (manifest : AppManifest) (rootDependencies : List AppDependency) (packages : List PackageEntry) :
    DependencyGraph :=
  let rootApp : DepNode :=
    { appId := manifest.id, name := manifest.name, publisher := manifest.publisher, version := manifest.version,
      packagePath := none }
  let packages := sortBy PackageEntry.sortKey packages
  let nodes := packages.map (·.node)
  let rootSource := (manifest.id, manifest.name, manifest.publisher)
  let edges := sortBy DepEdge.sortKey (rootDependencies.map (edge rootSource) ++ packages.flatMap (·.edges))
  let loaded := (packages.map (·.identity)).toFinset
  let work := transitiveWork rootApp.identity rootDependencies packages
  {
    rootApp
    nodes
    edges
    transitive := sortBy DepNode.sortKey (nodes.filter (·.identity ∈ work.reached))
    conflicts := findVersionConflicts edges packages
    missing := sortedTexts ((edges.filter (·.toIdentity ∉ loaded)).map (·.missingText)) }

end AlLanguage.Analysis
