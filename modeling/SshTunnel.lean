import SshTunnel.Lib.Runs
import SshTunnel.Lib.Notify
import SshTunnel.Lib.Tokens
import SshTunnel.IptablesScript
import SshTunnel.Replay
import SshTunnel.Connector.Prompt
import SshTunnel.Connector.HostKey
import SshTunnel.Connector.Clients
import SshTunnel.Connector.Progress
import SshTunnel.Connector.Accept
import SshTunnel.Connector.Tokens
import SshTunnel.Connector.Termination
import SshTunnel.Connector.Failover
import SshTunnel.Connector.Passphrase
import SshTunnel.Connector.Delivery
import SshTunnel.Connector.Rejection
import SshTunnel.Daemon.Step
import SshTunnel.Daemon.Lock
import SshTunnel.Daemon.Single
import SshTunnel.Daemon.KnownHosts
import SshTunnel.Daemon.Connect
import SshTunnel.Daemon.Discard
import SshTunnel.Dialers
import SshTunnel.Proxies.Serve
import SshTunnel.Proxies.Forward
import SshTunnel.Rest
import SshTunnel.BareRules
import SshTunnel.Commands
import SshTunnel.Registry
import SshTunnel.Connector.Users
import SshTunnel.Auth
import SshTunnel.Proxies.Dns
import SshTunnel.KnownHostsFile
import SshTunnel.ClientHook.Request
import SshTunnel.ClientHook.Connect
import SshTunnel.ClientHook.Resolve
import SshTunnel.AddDialer
import SshTunnel.ClientHook.Bounds
import SshTunnel.ClientHook.Ends
import SshTunnel.ClientHook.Head
import SshTunnel.AdditionalCommands
import SshTunnel.Proxies.Reply
import SshTunnel.Proxies.Order
import SshTunnel.HostPort
import SshTunnel.DialerCommand
import SshTunnel.Lib.Slices
import SshTunnel.AuthSlices
import SshTunnel.ArgumentSlices
import SshTunnel.Daemon.Leak
import SshTunnel.Daemon.Verified
import SshTunnel.Daemon.PasswordPrompt
import SshTunnel.Connector.Transcript
import SshTunnel.IptablesTable
import SshTunnel.Lifecycle
import SshTunnel.RuleOrder
import SshTunnel.Lib.HttpRequest
import SshTunnel.Lib.Json
import SshTunnel.Wire
import SshTunnel.ClientHook.Served
import SshTunnel.Stopping
import SshTunnel.KeyCommand
import SshTunnel.Proxies.Descriptors
import SshTunnel.Lib.Chains
import SshTunnel.Interception
import SshTunnel.RuleFlags
