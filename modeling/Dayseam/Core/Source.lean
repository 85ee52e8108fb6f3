import Dayseam.Core.Path
import Mathlib

/-!
# Sources

A configured source, with its configuration and the keychain slot of its secret.

## Main definitions

* `SourceConfig` — the configuration of each kind.
* `Source` — a row of the `sources` table; its times and its health are left out.
-/

namespace Dayseam

/-- A keychain slot. -/
structure SecretRef where
  keychainService : Text
  keychainAccount : Text
  deriving DecidableEq

inductive SourceConfig
  | gitLab (baseUrl : Text) (userId : ℤ) (username : Text)
  | localGit (scanRoots : List PathBuf)
  | jira (workspaceUrl email : Text)
  | confluence (workspaceUrl email : Text)
  | gitHub (apiBaseUrl : Text)
  | outlook (tenantId userPrincipalName : Text)
  deriving DecidableEq

def SourceConfig.kind : SourceConfig → SourceKind
  | .gitLab _ _ _ => .gitLab
  | .localGit _ => .localGit
  | .jira _ _ => .jira
  | .confluence _ _ => .confluence
  | .gitHub _ => .gitHub
  | .outlook _ _ => .outlook

/-- The scan roots of a LocalGit configuration. -/
def SourceConfig.scanRoots : SourceConfig → List PathBuf
  | .localGit scanRoots => scanRoots
  | _ => []

/-- The commands refuse a configuration of another kind. -/
structure Source where
  id : Uuid
  kind : SourceKind
  label : Text
  config : SourceConfig
  secretRef : Option SecretRef
  kind_config : config.kind = kind
  deriving DecidableEq

namespace Source

/-- The scan roots of a LocalGit source. -/
def scanRoots (source : Source) : List PathBuf := source.config.scanRoots

theorem scanRoots_of_kind_ne {source : Source} (h : source.kind ≠ .localGit) :
    source.scanRoots = [] := by
  obtain ⟨id, kind, label, config, secretRef, rfl⟩ := source
  cases config with
  | localGit scanRoots => exact absurd rfl h
  | _ => rfl

/-- `update_config`, where the source has the id. -/
def updateConfig (source : Source) (id : Uuid) (config : SourceConfig) : Source :=
  if h : source.id = id ∧ config.kind = source.kind then
    { source with config := config, kind_config := h.2 }
  else source

variable {source : Source} {id : Uuid} {config : SourceConfig}

@[simp] theorem id_updateConfig : (source.updateConfig id config).id = source.id := by
  unfold updateConfig
  split_ifs <;> rfl

@[simp] theorem kind_updateConfig : (source.updateConfig id config).kind = source.kind := by
  unfold updateConfig
  split_ifs <;> rfl

end Source

end Dayseam
