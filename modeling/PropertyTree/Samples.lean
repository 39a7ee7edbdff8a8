import PropertyTree.Manifest.Text

/-!
# Sample manifests

Small manifests to try operations on: a cache deployment with properties, a manifest whose one job
has none, and one with a job in each of several groups.
-/

namespace PropertyTree

namespace Samples

/-- The text of a cache deployment with a locator and two servers. -/
def cloudcacheText : String :=
  "\n".intercalate
    ["",
      "name: cloudcache",
      "instance_groups:",
      "- name: locator",
      "  instances: 1",
      "  jobs:",
      "  - name: gemfire-locator",
      "    release: gemfire",
      "  - name: route_registrar",
      "    release: routing",
      "    properties:",
      "      route_registrar:",
      "        routes:",
      "        - name: cloudcache",
      "          port: 8080",
      "        - name: pulse",
      "          port: 7070",
      "          uris: [pulse.example.com]",
      "- name: server",
      "  instances: 2",
      "  jobs:",
      "  - name: gemfire-server",
      "    release: gemfire",
      "    properties:",
      "      gemfire:",
      "        memory: 4096",
      "        name: server",
      "        ports: [40404, 40405]",
      "variables:",
      "- name: gemfire_ca",
      "  type: certificate",
      "  options: \x7bis_ca: true, common_name: gemfire\x7d",
      ""]

/-- The cache deployment. -/
def cloudcache : Logged (Except LoadError Manifest) :=
  Manifest.ofYaml cloudcacheText

/-- A manifest whose one job has no properties at all. -/
def emptyLocator : Manifest :=
  (Manifest.new "cloudcache").withGroup
    ((InstanceGroup.new "locator").withJob (Job.new "gemfire-locator" "gemfire"))

/-- The group of a number, with a companion job and a job of a name. -/
def replicatedGroup (name : String) (number : Nat) : InstanceGroup :=
  ((InstanceGroup.new ("group-" ++ toString number)).withJob
    (Job.new ("sidecar-" ++ toString number) "sidecars")).withJob (Job.new name "main")

/-- A manifest with a job of a name in each of several groups. -/
def replicated (name : String) (groups : Nat) : Manifest :=
  { Manifest.new "replicated" with groups := (List.range groups).map (replicatedGroup name) }

end Samples

end PropertyTree
