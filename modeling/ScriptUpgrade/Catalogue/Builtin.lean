/-
# The commands of the current release

The catalogue against which commands are checked unless another one is given.
-/

import ScriptUpgrade.Catalogue.Basic

namespace ScriptUpgrade
namespace Catalogue
namespace Builtin

/-- The subcommands of a resource that is created and deleted. -/
def managed : List String :=
  ["list", "create", "read", "update", "delete"]

/-- The subcommands of a resource that can only be looked at. -/
def readOnly : List String :=
  ["list", "read"]

/-- The subcommands of an appliance that can be switched on and off. -/
def powered : List String :=
  ["list", "create", "read", "update", "delete", "boot", "shutdown", "reset", "wait-until-ready",
   "wait-until-shutdown"]

/-- The subcommands of a storage medium that is filled by file transfer. -/
def media : List String :=
  ["list", "create", "read", "update", "delete", "upload", "download", "ftp-open", "ftp-close",
   "wait-until-ready"]

/-- A row of the table: the name, the category, the description and the subcommands. -/
def row (command : String) (category : Category) (description : String)
    (subcommands : List String) : Text × Entry :=
  (command.toList, ⟨command.toList, subcommands.map String.toList, description.toList, category⟩)

/-- The commands of the current release. -/
def table : List (Text × Entry) :=
  [row "server" .compute "Manage virtual servers"
     ["list", "create", "read", "update", "delete", "boot", "shutdown", "reset", "send-nmi",
      "monitor-cpu", "ssh", "vnc", "rdp", "wait-until-ready", "wait-until-shutdown"],
   row "server-plan" .compute "List server plans" readOnly,
   row "private-host" .compute "Manage dedicated private hosts" managed,
   row "private-host-plan" .compute "List private host plans" readOnly,
   row "disk" .storage "Manage disks"
     ["list", "create", "read", "update", "delete", "edit", "resize-partition",
      "connect-to-server", "disconnect-from-server", "monitor-disk", "wait-until-ready"],
   row "disk-plan" .storage "List disk plans" readOnly,
   row "archive" .storage "Manage archives" media,
   row "cdrom" .storage "Manage ISO images" media,
   row "auto-backup" .storage "Manage scheduled disk backups" managed,
   row "nfs" .storage "Manage NFS appliances" powered,
   row "switch" .network "Manage switches"
     ["list", "create", "read", "update", "delete", "connect-to-bridge", "disconnect-from-bridge"],
   row "bridge" .network "Manage bridges between zones" managed,
   row "internet" .network "Manage routers with internet access"
     ["list", "create", "read", "update", "delete", "update-bandwidth", "enable-ipv6",
      "disable-ipv6", "monitor-router", "wait-until-ready"],
   row "internet-plan" .network "List router bandwidth plans" readOnly,
   row "ipaddress" .network "Manage IPv4 addresses and reverse DNS" ["list", "read", "update"],
   row "ipv6addr" .network "Manage IPv6 addresses" managed,
   row "subnet" .network "Manage router subnets" readOnly,
   row "packet-filter" .security "Manage packet filters" managed,
   row "ssh-key" .security "Manage registered SSH public keys"
     ["list", "create", "read", "update", "delete", "generate"],
   row "certificate-authority" .security "Manage private certificate authorities" managed,
   row "database" .appliance "Manage database appliances"
     ["list", "create", "read", "update", "delete", "boot", "shutdown", "reset", "monitor-cpu",
      "monitor-database", "wait-until-ready", "wait-until-shutdown"],
   row "load-balancer" .appliance "Manage load balancer appliances" powered,
   row "vpc-router" .appliance "Manage VPC router appliances"
     ["list", "create", "read", "update", "delete", "boot", "shutdown", "reset",
      "monitor-interface", "logs", "wait-until-ready", "wait-until-shutdown"],
   row "mobile-gateway" .appliance "Manage mobile gateway appliances" powered,
   row "proxy-lb" .appliance "Manage enhanced load balancers"
     ["list", "create", "read", "update", "delete", "renew-lets-encrypt-cert",
      "monitor-connection"],
   row "gslb" .appliance "Manage global server load balancing" managed,
   row "dns" .appliance "Manage DNS zones" managed,
   row "simple-monitor" .appliance "Manage simple monitoring"
     ["list", "create", "read", "update", "delete", "health-status"],
   row "enhanced-db" .appliance "Manage enhanced databases" managed,
   row "container-registry" .appliance "Manage container registries" managed,
   row "sim" .appliance "Manage SIM cards"
     ["list", "create", "read", "update", "delete", "activate", "deactivate", "logs"],
   row "note" .misc "Manage startup scripts" managed,
   row "icon" .misc "Manage icons" managed,
   row "license" .misc "Manage software licenses" managed,
   row "license-info" .misc "List available license types" readOnly,
   row "webaccel" .misc "Manage web accelerator sites"
     ["list", "read", "read-certificate", "upsert-certificate", "delete-all-cache"],
   row "bill" .billing "Show invoices" ["list", "csv"],
   row "coupon" .billing "List coupons" ["list"],
   row "service-class" .billing "List service prices" ["list"],
   row "self" .billing "Show the current account" ["read"],
   row "zone" .global "List zones" readOnly,
   row "region" .global "List regions" readOnly,
   row "config" .global "Manage CLI profiles"
     ["list", "create", "read", "update", "delete", "use", "current", "edit"],
   row "completion" .global "Generate shell completion scripts"
     ["bash", "zsh", "fish", "powershell"],
   row "version" .global "Show version information" [],
   row "rest" .global "Call the API directly" [],
   row "update-self" .global "Update the CLI to the latest release" []]

/-- The commands that take no subcommand. -/
def standalone : List Text :=
  ["version".toList, "rest".toList, "update-self".toList]

end Builtin

/-- The catalogue of the current release. -/
def builtin : Catalogue :=
  ofEntries Builtin.table Builtin.standalone

end Catalogue
end ScriptUpgrade
